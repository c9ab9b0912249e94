import DesignCompiler.Proofs.Displayed
import DesignCompiler.Proofs.Histories

namespace DesignCompiler

open Step Registry

variable {ctx : Context} {nested : Option (Registering Component)}

def Visit.Restyles (v w : Visit) : Prop :=
  w = { v with outer := w.outer, middle := w.middle, inner := w.inner }

namespace Visit.Restyles

theorem trans {u v w : Visit} (h : Restyles u v) (h' : Restyles v w) : Restyles u w := by
  rw [Restyles] at h h'
  rw [h] at h'
  exact h'

theorem foldl_setMiddle (sides : List String) (v : Visit) :
    Restyles v (sides.foldl (fun v side => v.setMiddle side (.number 0)) v) := by
  induction sides generalizing v with
  | nil => rfl
  | cons side sides ih => exact trans (v := v.setMiddle side (.number 0)) rfl (ih _)

theorem finish (v : Visit) : Restyles v v.finish := by
  unfold Visit.finish
  dsimp only
  split <;> split <;> rfl

/-- All style plugins but one only write styles. -/
theorem applyStyle {p : StylePlugin} (hp : p ≠ .autoLayout) (w : Work) :
    Restyles w.visit (p.apply ctx w).visit ∧ (p.apply ctx w).scope = w.scope := by
  refine ⟨?_, ?_⟩
  · cases p with
    | autoLayout => exact absurd rfl hp
    | middleOrder =>
        change Restyles w.visit w.visit.orderMiddle
        unfold Visit.orderMiddle
        split <;> rfl
    | transformation =>
        change Restyles w.visit w.visit.rotate
        unfold Visit.rotate
        split
        · split <;> rfl
        · rfl
    | horizontalAlign =>
        change Restyles w.visit w.visit.alignHorizontally
        unfold Visit.alignHorizontally
        split <;> rfl
    | verticalAlign =>
        change Restyles w.visit w.visit.alignVertically
        unfold Visit.alignVertically
        split <;> rfl
    | frameStyles =>
        change Restyles w.visit (w.visit.paint ctx)
        unfold Visit.paint
        split
        · rfl
        · split <;> rfl
    | maskCompositing =>
        change Restyles w.visit (w.visit.composeMask ctx)
        unfold Visit.composeMask
        dsimp only
        split <;> rfl
  · cases p with
    | autoLayout => exact absurd rfl hp
    | _ => rfl

end Visit.Restyles

def ClassName.number? : ClassName → Option Nat
  | .numbered n => some n
  | .named _ => none

def Head.numbers (h : Head) : List Nat := h.classNames.filterMap ClassName.number?

def Head.expressions (h : Head) : List String := (h.properties.filter (·.1 ≠ "id")).map Prod.snd

namespace Fragment

def rules : Fragment → List Rule
  | .span rule .. | .lineBreak rule _ | .blankLine rule _ => rule.toList
  | .input head .. => head.rule.toList
  | _ => []

def numbers : Fragment → List Nat
  | .drawing number _ | .picture number _ => [number]
  | .input head .. => head.numbers
  | f => f.rules.map Rule.number

def expressions : Fragment → List String
  | .guard _ prop | .slot prop => [prop]
  | .input head .. => head.expressions
  | _ => []

def CarriesClass (stem : String) : Fragment → Prop
  | .drawing number drawn => ∃ raw source,
    Markup.transcode raw { source, className := some ("vector " ++ numberedClass stem number) } = .ok drawn
  | _ => True

theorem CarriesClass.of_nil {stem : String} {f : Fragment} (h : f.numbers = []) : f.CarriesClass stem := by
  cases f with
  | drawing number drawn => cases h
  | _ => trivial

/-- A fragment that is no text, with classes that were allotted between two states of a scope and with
properties that are declared. -/
structure Fits (s t : Scope) (f : Fragment) : Prop where
  unwritten : f.isWritten = false
  carries : f.CarriesClass s.classPrefix
  numbers : ∀ n ∈ f.numbers, s.nextClass ≤ n ∧ n < t.nextClass
  expressions : ∀ prop ∈ f.expressions, prop ∈ t.props.keys

theorem Fits.mono {r s t u : Scope} {f : Fragment} (h : f.Fits s t) (hr : r.Grows s) (hu : t.Grows u) :
    f.Fits r u where
  unwritten := h.unwritten
  carries := hr.prefix_eq ▸ h.carries
  numbers n hn := ⟨hr.nextClass_le.trans (h.numbers n hn).1, (h.numbers n hn).2.trans_le hu.nextClass_le⟩
  expressions prop hprop := hu.props (h.expressions prop hprop)

theorem Fits.of_nil {s t : Scope} {f : Fragment} (hw : f.isWritten = false) (hn : f.numbers = [])
    (he : f.expressions = []) : f.Fits s t :=
  ⟨hw, .of_nil hn, by simp [hn], by simp [he]⟩

theorem Fits.of_declared {s t : Scope} {f : Fragment} {prop : String} (hw : f.isWritten = false)
    (hn : f.numbers = []) (he : f.expressions = [prop]) (hprop : prop ∈ t.props.keys) : f.Fits s t :=
  ⟨hw, .of_nil hn, by simp [hn], by simpa [he] using hprop⟩

end Fragment

namespace Node

variable (node : Node)

def declaration (key type : String) : List (String × String) :=
  ((Params.value? key node.params).map (·, type)).toList

/-- The properties that a node declares, in this order; the last type of a name counts. -/
def declarations : List (String × String) :=
  node.declaration "content" anyType ++ node.declaration "ifTrue" anyType ++
    node.declaration "ifFalse" anyType ++ node.declaration "onClick" mouseHandlerType

def attributes : Table String :=
  ((Params.value? "onClick" node.params).map ("onClick", ·)).toList ++
    ((Params.value? "id" node.params).map fun id => ("id", "'" ++ id ++ "'")).toList

/-- A text that is drawn as an input, which takes the attributes of the node. -/
def isInput : Bool := node.kind = .text && node.params.contains "input"

def stackEntries : List Scope.Entry :=
  match node.attrs.layoutMode with
  | none | some .none => []
  | some mode => [.allotted " > * > *" (itemDeclarations mode (node.attrs.itemSpacing.getD 0))]

end Node

namespace Context

/-- What the component of a node enters, which was imported like this, or else the description of the
node. -/
def nestedEntries (ctx : Context) (inside : Bool) (node : Node) (i : Import) : List Scope.Entry :=
  if !inside then []
  else if node.attrs.isComponentRoot then
    [.component i, .allotted " > :global(*)" ["height: 100%;", "width: 100%;"]]
  else (ctx.descriptionStyles? node).toList.map .written

def stretchEntry (node : Node) : Scope.Entry :=
  let declarations := stretchDeclarations (stretchesHorizontally node.constraints.horizontal)
    (stretchesVertically node.constraints.vertical)
  if declarations.isEmpty then .bare else .allotted "" declarations

def vectorEntries (ctx : Context) (node : Node) : List Scope.Entry :=
  if (ctx.vector? node).isSome then [stretchEntry node] else []

/-- All that is entered for a node before its text and its wrappers. -/
def entries (ctx : Context) (inside : Bool) (node : Node) (i : Import) : List Scope.Entry :=
  node.stackEntries ++ ctx.nestedEntries inside node i ++ ctx.vectorEntries node ++
    node.declarations.map fun d => .property d.1 d.2

end Context

theorem Context.properties_entries (ctx : Context) (inside : Bool) (node : Node) (i : Import) :
    (ctx.entries inside node i).filterMap Scope.Entry.property? = node.declarations := by
  have hstack : node.stackEntries.filterMap Scope.Entry.property? = [] := by
    unfold Node.stackEntries
    split <;> rfl
  have hnested : (ctx.nestedEntries inside node i).filterMap Scope.Entry.property? = [] := by
    unfold Context.nestedEntries
    split
    · rfl
    · split
      · rfl
      · cases ctx.descriptionStyles? node <;> rfl
  have hvector : (ctx.vectorEntries node).filterMap Scope.Entry.property? = [] := by
    unfold Context.vectorEntries Context.stretchEntry
    dsimp only
    split
    · split <;> rfl
    · rfl
  have hdeclared : (node.declarations.map fun d => Scope.Entry.property d.1 d.2).filterMap
      Scope.Entry.property? = node.declarations := by
    rw [List.filterMap_map]
    exact List.filterMap_some
  rw [Context.entries, List.filterMap_append, List.filterMap_append, List.filterMap_append, hstack,
    hnested, hvector, hdeclared]
  rfl

theorem Work.mem_keys_declare (w : Work) (prop type : String) :
    prop ∈ (w.declare prop type).scope.props.keys := by
  change prop ∈ (Table.put prop type w.scope.props).keys
  rw [Table.keys_put]
  split
  · assumption
  · simp

theorem Context.nextClass_add_stretchEntry (node : Node) (s : Scope) :
    (s.add (stretchEntry node)).nextClass = s.nextClass + 1 := by
  unfold stretchEntry
  dsimp only
  split <;> rfl

theorem Work.stretch_eq (w : Work) :
    w.stretch = ⟨w.visit.clear, w.scope.add (Context.stretchEntry w.visit.node)⟩ := by
  unfold stretch Context.stretchEntry
  dsimp only
  split <;> rfl

/-- A visit to a node that has entered so much in a scope, with these attributes. All that it has placed
fits between the scope before and the scope now. -/
structure Work.Stands (node : Node) (s : Scope) (entries : List Scope.Entry)
    (attributes : Table String) (w : Work) : Prop where
  node_eq : w.visit.node = node
  attributes_eq : w.visit.properties = attributes
  scope_eq : w.scope = s.addAll entries
  classes : ∀ n ∈ w.visit.classes.filterMap ClassName.number?, s.nextClass ≤ n ∧ n < w.scope.nextClass
  fragments : ∀ f ∈ w.visit.prelude ++ w.visit.content, f.Fits s w.scope

namespace Work.Stands

variable {node : Node} {s : Scope} {entries added : List Scope.Entry}
  {attributes : Table String} {w w' : Work}

theorem grows (h : Stands node s entries attributes w) : s.Grows w.scope :=
  h.scope_eq ▸ Scope.Grows.addAll s entries

theorem enter (h : Stands node s entries attributes w) {attributes' : Table String}
    (hnode : w'.visit.node = w.visit.node) (hattributes : w'.visit.properties = attributes')
    (hscope : w'.scope = w.scope.addAll added)
    (hclasses : ∀ c ∈ w'.visit.classes, c ∈ w.visit.classes ∨
      ∀ n ∈ c.number?, w.scope.nextClass ≤ n ∧ n < w'.scope.nextClass)
    (hfragments : ∀ f ∈ w'.visit.prelude ++ w'.visit.content, f ∈ w.visit.prelude ++ w.visit.content ∨
      f.Fits w.scope w'.scope) :
    Stands node s (entries ++ added) attributes' w' := by
  have hgrows : w.scope.Grows w'.scope := hscope ▸ Scope.Grows.addAll w.scope added
  refine ⟨hnode.trans h.node_eq, hattributes, ?_, ?_, ?_⟩
  · rw [hscope, h.scope_eq, Scope.addAll_append]
  · intro n hn
    obtain ⟨c, hc, hnumber⟩ := List.mem_filterMap.1 hn
    rcases hclasses c hc with hold | hnew
    · obtain ⟨hle, hlt⟩ := h.classes n (List.mem_filterMap.2 ⟨c, hold, hnumber⟩)
      exact ⟨hle, hlt.trans_le hgrows.nextClass_le⟩
    · obtain ⟨hle, hlt⟩ := hnew n hnumber
      exact ⟨h.grows.nextClass_le.trans hle, hlt⟩
  · intro f hf
    rcases hfragments f hf with hold | hnew
    · exact (h.fragments f hold).mono (.refl s) hgrows
    · exact hnew.mono h.grows (.refl _)

theorem edit (h : Stands node s entries attributes w) {attributes' : Table String}
    (hnode : w'.visit.node = w.visit.node) (hattributes : w'.visit.properties = attributes')
    (hscope : w'.scope = w.scope) (hclasses : w'.visit.classes = w.visit.classes)
    (hfragments : w'.visit.prelude ++ w'.visit.content ⊆ w.visit.prelude ++ w.visit.content) :
    Stands node s entries attributes' w' := by
  have hstands : Stands node s (entries ++ []) attributes' w' :=
    h.enter hnode hattributes hscope (fun c hc => .inl (hclasses ▸ hc))
      (fun f hf => .inl (hfragments hf))
  rwa [List.append_nil] at hstands

theorem restyle (h : Stands node s entries attributes w) (hvisit : w.visit.Restyles w'.visit)
    (hscope : w'.scope = w.scope) : Stands node s entries attributes w' := by
  rw [Visit.Restyles] at hvisit
  refine h.edit ?_ ?_ hscope ?_ ?_
  · rw [hvisit]
  · rw [hvisit]
    exact h.attributes_eq
  · rw [hvisit]
  · rw [hvisit]
    exact List.Subset.refl _

theorem clear (h : Stands node s entries attributes w) :
    Stands node s entries attributes (w.editVisit Visit.clear) := by
  refine h.edit rfl h.attributes_eq rfl rfl ?_
  change w.visit.prelude ++ [] ⊆ _
  rw [List.append_nil]
  exact List.subset_append_left ..

theorem addContent (h : Stands node s entries attributes w) {f : Fragment} (hf : f.Fits s w.scope) :
    Stands node s entries attributes (w.editVisit fun v => v.addContent f) := by
  refine ⟨h.node_eq, h.attributes_eq, h.scope_eq, h.classes, ?_⟩
  intro g hg
  change g ∈ w.visit.prelude ++ (w.visit.content ++ [f]) at hg
  rw [← List.append_assoc, List.mem_append, List.mem_singleton] at hg
  rcases hg with hg | rfl
  · exact h.fragments g hg
  · exact hf

theorem addPrelude (h : Stands node s entries attributes w) {f : Fragment} (hf : f.Fits s w.scope) :
    Stands node s entries attributes (w.editVisit fun v => v.addPrelude f) := by
  refine ⟨h.node_eq, h.attributes_eq, h.scope_eq, h.classes, ?_⟩
  intro g hg
  change g ∈ (w.visit.prelude ++ [f]) ++ w.visit.content at hg
  rw [List.mem_append, List.mem_append, List.mem_singleton] at hg
  rcases hg with (hg | rfl) | hg
  · exact h.fragments g (List.mem_append_left _ hg)
  · exact hf
  · exact h.fragments g (List.mem_append_right _ hg)

theorem addEntry (h : Stands node s entries attributes w) (e : Scope.Entry) :
    Stands node s (entries ++ [e]) attributes ⟨w.visit, w.scope.add e⟩ :=
  h.enter rfl h.attributes_eq rfl (fun _ hc => .inl hc) (fun _ hf => .inl hf)

theorem addClass (h : Stands node s entries attributes w) (selector : String)
    (declarations : List String) :
    Stands node s (entries ++ [.allotted selector declarations]) attributes
      ⟨w.visit.addClass (.numbered w.scope.nextClass), w.scope.add (.allotted selector declarations)⟩ := by
  refine h.enter rfl h.attributes_eq rfl ?_ (fun _ hf => .inl hf)
  intro c hc
  rcases List.mem_append.1 hc with hc | hc
  · exact .inl hc
  · refine .inr fun n hn => ?_
    rw [List.mem_singleton.1 hc] at hn
    obtain rfl := Option.some.inj hn
    exact ⟨Nat.le_refl _, Nat.lt_succ_self _⟩

theorem start (node : Node) (place : Place) (s : Scope) :
    Stands node s [] [] ⟨.start node place, s⟩ := by
  have hv : Stands node s [] [] ⟨{ node, place }, s⟩ := ⟨rfl, rfl, rfl, by simp, by simp⟩
  refine hv.restyle ?_ rfl
  unfold Visit.start
  dsimp only
  split <;> rfl

theorem layOut (h : Stands node s entries attributes w) :
    Stands node s (entries ++ node.stackEntries) attributes w.layOut := by
  have hmargins : Stands node s entries attributes
      (if w.visit.place.parent.any (·.attrs.isStack) then
        w.editVisit fun v => margins.foldl (fun v side => v.setMiddle side (.number 0)) v
      else w) := by
    split
    · exact h.restyle (Visit.Restyles.foldl_setMiddle margins w.visit) rfl
    · exact h
  unfold Work.layOut Node.stackEntries
  dsimp only
  rw [hmargins.node_eq]
  rcases node.attrs.layoutMode with _ | mode
  · rwa [List.append_nil]
  · cases mode with
    | none => rwa [List.append_nil]
    | horizontal => exact (hmargins.addClass ..).restyle rfl rfl
    | vertical => exact (hmargins.addClass ..).restyle rfl rfl

theorem applyStyles (hp : ctx.plugins = {}) (h : Stands node s entries attributes w) :
    Stands node s (entries ++ node.stackEntries) attributes (w.applyStyles ctx) := by
  have hstyled : ∀ {p : StylePlugin}, p ≠ .autoLayout → ∀ {entries : List Scope.Entry} {w : Work},
      Stands node s entries attributes w → Stands node s entries attributes (p.apply ctx w) := by
    intro p hp entries w hw
    obtain ⟨hvisit, hscope⟩ := Visit.Restyles.applyStyle hp w
    exact hw.restyle hvisit hscope
  rw [Work.applyStyles, hp]
  have hplaced := hstyled (p := .verticalAlign) (by decide) <|
    hstyled (p := .horizontalAlign) (by decide) <| hstyled (p := .transformation) (by decide) <|
      hstyled (p := .middleOrder) (by decide) h
  exact hstyled (p := .maskCompositing) (by decide) <| hstyled (p := .frameStyles) (by decide) <|
    hplaced.layOut

theorem drawNested (h : Stands node s entries attributes w) {r t : Registry}
    (hd : exec (drawNested ctx nested) (w, r) = (.ok (), (w', t))) :
    ∃ i, Stands node s (entries ++ ctx.nestedEntries nested.isSome node i) attributes w' := by
  cases nested with
  | none =>
      rw [exec_drawNested_none] at hd
      cases hd
      exact ⟨⟨"", ""⟩, by simpa [Context.nestedEntries] using h⟩
  | some build =>
      rw [exec_drawNested_some, h.node_eq] at hd
      rw [Option.isSome_some]
      split at hd <;> rename_i hroot
      · rcases hb : exec build r with ⟨e | c, q⟩ <;> rw [hb] at hd
        · cases hd
        · cases hd
          have hshown := h.clear.addContent (f := .component (ctx.nameOf node) w.visit.sceneId)
            (.of_nil rfl rfl rfl)
          have hused := (hshown.addEntry (.component c.asImport)).addClass " > :global(*)"
            ["height: 100%;", "width: 100%;"]
          have hentries : ctx.nestedEntries true node c.asImport =
              [.component c.asImport, .allotted " > :global(*)" ["height: 100%;", "width: 100%;"]] := by
            simp [Context.nestedEntries, hroot]
          rw [List.append_assoc] at hused
          exact ⟨c.asImport, hentries ▸ hused⟩
      · cases hd
        refine ⟨⟨"", ""⟩, ?_⟩
        unfold Work.addDescription
        rw [h.node_eq]
        split
        · next styles hstyles =>
          have hwritten : Stands node s (entries ++ [.written styles]) attributes
              (w.editScope fun s => s.addExtra (.written styles)) := h.addEntry (.written styles)
          simpa [Context.nestedEntries, hroot, hstyles] using hwritten
        · next hstyles => simpa [Context.nestedEntries, hroot, hstyles] using h

theorem hideMask (h : Stands node s entries attributes w) :
    Stands node s entries attributes (w.editVisit Visit.hideMask) := by
  unfold Work.editVisit Visit.hideMask
  split
  · exact h.clear
  · exact h

theorem drawVector (h : Stands node s entries attributes w) (hd : w.drawVector ctx = (.ok (), w')) :
    Stands node s (entries ++ ctx.vectorEntries node) attributes w' := by
  have hstretch : Stands node s (entries ++ [Context.stretchEntry node]) attributes w.stretch := by
    rw [w.stretch_eq, h.node_eq]
    exact h.clear.addEntry (Context.stretchEntry node)
  have hnext : s.nextClass ≤ w.scope.nextClass ∧ w.scope.nextClass < w.stretch.scope.nextClass := by
    refine ⟨h.grows.nextClass_le, ?_⟩
    rw [w.stretch_eq, Context.nextClass_add_stretchEntry]
    exact Nat.lt_succ_self _
  have hstem : w.scope.classPrefix = s.classPrefix := h.grows.prefix_eq
  obtain rfl := h.node_eq
  rw [Context.vectorEntries]
  rcases Work.drawVector_cases hd with ⟨hnone, rfl⟩ | ⟨markup, hsome, hdrawn⟩
  · simpa [hnone] using h
  · rw [hsome, Option.isSome_some, if_pos rfl]
    rcases hdrawn with rfl | ⟨url, rfl⟩ | ⟨drawn, htranscode, rfl⟩
    · exact hstretch
    · refine hstretch.addContent ⟨rfl, trivial, ?_, List.nil_subset _⟩
      simpa [Fragment.numbers] using hnext
    · refine hstretch.addContent ⟨rfl, ⟨markup, _, hstem ▸ htranscode⟩, ?_, List.nil_subset _⟩
      simpa [Fragment.numbers] using hnext

theorem declare (h : Stands node s entries attributes w) (prop type : String) :
    Stands node s (entries ++ [.property prop type]) attributes (w.declare prop type) :=
  h.addEntry (.property prop type)

theorem drawContent (h : Stands node s entries attributes w) :
    Stands node s (entries ++ (node.declaration "content" anyType).map fun d => .property d.1 d.2)
      attributes w.drawSlot.drawSlotFallback := by
  have hparams : w.drawSlot.visit.params = node.params := by
    rw [← h.node_eq]
    unfold Work.drawSlot
    split
    · split <;> rfl
    · rfl
  rw [Work.drawSlotFallback, hparams, Work.drawSlot, Visit.params, h.node_eq, Node.declaration]
  cases Params.value? "content" node.params with
  | none => simpa using h
  | some prop =>
      have hdeclared := h.declare prop anyType
      have hprop := w.mem_keys_declare prop anyType
      cases node.params.contains "contentIfEmpty" with
      | false => exact hdeclared.clear.addContent (.of_declared rfl rfl rfl hprop)
      | true =>
          exact ((hdeclared.addPrelude (.of_declared (f := .guard .falsy prop) rfl rfl rfl hprop)).addContent
            (.of_nil (f := .guardEnd) rfl rfl rfl)).addContent
              (.of_declared (f := .slot prop) rfl rfl rfl hprop)

theorem drawGuard (h : Stands node s entries attributes w) (key : String) (g : Guard) :
    Stands node s (entries ++ (node.declaration key anyType).map fun d => .property d.1 d.2) attributes
      (w.drawGuard key g) := by
  rw [Work.drawGuard, Visit.params, h.node_eq, Node.declaration]
  cases Params.value? key node.params with
  | none => simpa using h
  | some prop =>
      exact ((h.declare prop anyType).addPrelude
        (.of_declared (f := .guard g prop) rfl rfl rfl (w.mem_keys_declare prop anyType))).addContent
          (.of_nil (f := .guardEnd) rfl rfl rfl)

theorem setProperty (h : Stands node s entries attributes w) (name code : String) :
    Stands node s entries (Table.put name code attributes) (w.editVisit (Visit.setProperty name code)) :=
  h.edit rfl (congrArg (Table.put name code) h.attributes_eq) rfl rfl (List.Subset.refl _)

theorem setAttributes (h : Stands node s entries [] w) :
    Stands node s (entries ++ (node.declaration "onClick" mouseHandlerType).map fun d => .property d.1 d.2)
      node.attributes (w.bindClick.editVisit Visit.setId) := by
  have hclicked : Stands node s
      (entries ++ (node.declaration "onClick" mouseHandlerType).map fun d => .property d.1 d.2)
      ((Params.value? "onClick" node.params).map ("onClick", ·)).toList w.bindClick := by
    rw [Work.bindClick, Visit.params, h.node_eq, Node.declaration]
    cases Params.value? "onClick" node.params with
    | none => simpa using h
    | some prop => exact (h.setProperty "onClick" prop).declare prop mouseHandlerType
  change Stands _ _ _ _ ⟨w.bindClick.visit.setId, w.bindClick.scope⟩
  rw [Visit.setId, Visit.params, hclicked.node_eq, Node.attributes]
  cases Params.value? "id" node.params with
  | none => simpa using hclicked
  | some id =>
      have hset := hclicked.setProperty "id" ("'" ++ id ++ "'")
      cases hclick : Params.value? "onClick" node.params <;> rw [hclick] at hset <;> exact hset

theorem addNamedClass (h : Stands node s entries attributes w) :
    Stands node s entries attributes (w.editVisit Visit.addNamedClass) := by
  have hstands : Stands node s (entries ++ []) attributes (w.editVisit Visit.addNamedClass) := by
    unfold Work.editVisit Visit.addNamedClass
    split
    · refine h.enter rfl h.attributes_eq rfl (fun c hc => ?_) (fun f hf => .inl hf)
      rcases List.mem_append.1 hc with hc | hc
      · exact .inl hc
      · exact .inr (by simp [List.mem_singleton.1 hc, ClassName.number?])
    · rwa [List.append_nil]
  rwa [List.append_nil] at hstands

end Work.Stands

/-- All that the default plugins do after the one for vectors and before the text of the node. -/
def Work.beforeText (w : Work) : Work :=
  (w.drawParameters.bindClick.editVisit Visit.setId).editVisit Visit.addNamedClass

theorem Work.afterVector_eq (w : Work) : w.afterVector = w.beforeText.drawText := rfl

theorem Work.Stands.beforeText {node : Node} {s : Scope} {entries : List Scope.Entry} {w : Work}
    (h : Stands node s entries [] w) :
    Stands node s (entries ++ node.declarations.map fun d => .property d.1 d.2) node.attributes
      w.beforeText := by
  have hguards : Stands node s _ [] w.drawParameters :=
    (h.drawContent.drawGuard "ifTrue" .truthy).drawGuard "ifFalse" .falsy
  have hall := hguards.setAttributes.addNamedClass
  simp only [List.append_assoc, ← List.map_append] at hall
  rw [Node.declarations, List.append_assoc, List.append_assoc]
  exact hall

theorem exists_stands_of_draw (hp : ctx.plugins = {}) {node : Node} {place : Place} {v : Visit}
    {s t : Scope} {q q' : Registry}
    (h : exec ((Visit.start node place).draw ctx nested) (s, q) = (.ok v, (t, q'))) :
    ∃ i w, Work.Stands node s (ctx.entries nested.isSome node i) node.attributes w ∧
      v = w.drawText.visit ∧ t = w.drawText.scope := by
  have hstart : Work.Stands node s node.stackEntries [] (Work.beforeNested ctx ⟨.start node place, s⟩) :=
    ((Work.Stands.start node place s).applyStyles hp).restyle rfl rfl
  rw [exec_draw_default hp] at h
  rcases hn : exec (drawNested ctx nested) (Work.beforeNested ctx ⟨.start node place, s⟩, q)
    with ⟨e | u, w, r⟩ <;> rw [hn] at h
  · cases h
  · dsimp only at h
    rcases hv : (w.editVisit Visit.hideMask).drawVector ctx with ⟨e | u, x⟩ <;> rw [hv] at h
    · cases h
    · obtain ⟨i, hnested⟩ := hstart.drawNested hn
      have hstands := (hnested.hideMask.drawVector hv).beforeText
      simp only [Work.afterVector_eq, Prod.mk.injEq, Except.ok.injEq] at h
      exact ⟨i, x.beforeText, hstands, h.1.symm, h.2.1.symm⟩

end DesignCompiler

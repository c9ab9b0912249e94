import DesignCompiler.Proofs.Flattening
import DesignCompiler.Proofs.Pipeline

namespace DesignCompiler

open Step

namespace Table

variable {α : Type} {varies : String → Prop} {s t : Table α}

/-- The same names in the same order, with the same values but for some names. -/
inductive AgreesBut (varies : String → Prop) : Table α → Table α → Prop
  | nil : AgreesBut varies [] []
  | cons {name : String} {value value' : α} {s t : Table α} (hvalue : ¬varies name → value = value')
      (h : AgreesBut varies s t) : AgreesBut varies ((name, value) :: s) ((name, value') :: t)

namespace AgreesBut

theorem refl (s : Table α) : AgreesBut varies s s := by
  induction s with
  | nil => exact .nil
  | cons e s ih => exact .cons (fun _ => rfl) ih

theorem eq (h : AgreesBut varies s t) (hnone : ∀ name, ¬varies name) : s = t := by
  induction h with
  | nil => rfl
  | cons hvalue _ ih => rw [hvalue (hnone _), ih]

theorem mono (h : AgreesBut varies s t) {varies' : String → Prop}
    (hv : ∀ name, varies name → varies' name) : AgreesBut varies' s t := by
  induction h with
  | nil => exact .nil
  | cons hvalue _ ih => exact .cons (fun hfixed => hvalue fun hvaries => hfixed (hv _ hvaries)) ih

theorem lookup_eq (h : AgreesBut varies s t) {name : String} (hname : ¬varies name) :
    s.lookup name = t.lookup name := by
  induction h with
  | nil => rfl
  | @cons k v v' s t hvalue _ ih =>
      rw [List.lookup_cons, List.lookup_cons, ih]
      by_cases hk : name = k
      · rw [hvalue (hk ▸ hname)]
      · rw [beq_eq_false_iff_ne.2 hk]

theorem put (h : AgreesBut varies s t) {name : String} {value value' : α}
    (hvalue : ¬varies name → value = value') :
    AgreesBut varies (Table.put name value s) (Table.put name value' t) := by
  induction h with
  | nil => exact .cons hvalue .nil
  | cons hfirst hrest ih =>
      rw [Table.put, Table.put]
      split
      · next hk => exact .cons (hk ▸ hvalue) hrest
      · exact .cons hfirst ih

theorem putAll {entries entries' : Table α} (he : AgreesBut varies entries entries')
    (h : AgreesBut varies s t) : AgreesBut varies (Table.putAll entries s) (Table.putAll entries' t) := by
  induction he generalizing s t with
  | nil => exact h
  | cons hvalue _ ih => exact ih (h.put hvalue)

theorem erase (h : AgreesBut varies s t) (name : String) :
    AgreesBut varies (Table.erase name s) (Table.erase name t) := by
  induction h with
  | nil => exact .nil
  | @cons k v v' s t hvalue _ ih =>
      have herase : ∀ (v : α) (rest : Table α), Table.erase name ((k, v) :: rest) =
          if k = name then Table.erase name rest else (k, v) :: Table.erase name rest := by
        intro v rest
        by_cases hk : k = name <;> simp [Table.erase, hk]
      rw [herase, herase]
      split
      · exact ih
      · exact .cons hvalue ih

end AgreesBut

end Table

namespace StyleMap

open Table

variable {varies : String → Prop} {s t : StyleMap}

theorem agreesBut_set (h : AgreesBut varies s t) (property : String) (value : StyleValue) :
    AgreesBut varies (s.set property value) (t.set property value) :=
  h.put fun _ => rfl

theorem agreesBut_set? (h : AgreesBut varies s t) (property : String) (value : Option StyleValue) :
    AgreesBut varies (s.set? property value) (t.set? property value) := by
  cases value with
  | none => exact h
  | some value => exact agreesBut_set h property value

theorem agreesBut_merge (h : AgreesBut varies s t) (other : StyleMap) :
    AgreesBut varies (s.merge other) (t.merge other) :=
  (AgreesBut.refl other).putAll h

theorem agreesBut_append (h : AgreesBut varies s t) {property : String} (hproperty : ¬varies property)
    (value : String) : AgreesBut varies (s.append property value) (t.append property value) := by
  have hold : s.get? property = t.get? property := h.lookup_eq hproperty
  rw [append, append, hold]
  split <;> exact agreesBut_set h property _

end StyleMap

/-- The node is an item of a stack: it hangs from the upper or the lower edge of its parent. -/
def Node.Hangs (node : Node) : Prop :=
  node.constraints.vertical = .top ∨ node.constraints.vertical = .bottom

/-- The only property that the sibling before a node may decide. -/
def Node.Moves (node : Node) (property : String) : Prop :=
  property = "marginTop" ∧ node.constraints.vertical = .top

theorem Placement.exists_bounds?_previous (node : NodeAttributes)
    (parent previous previous' : Option NodeAttributes) :
    bounds? node parent previous = none ∧ bounds? node parent previous' = none ∨
      ∃ b top, bounds? node parent previous = some b ∧
        bounds? node parent previous' = some { b with top } := by
  cases parent with
  | none => exact .inl ⟨rfl, rfl⟩
  | some parent => exact .inr ⟨_, _, rfl, rfl⟩

namespace Placement

open Table

theorem Recipe.agreesBut_verticalMiddle {node : Node} (hnode : node.Hangs) (b : Bounds) (top : Float) :
    AgreesBut node.Moves ((verticalRule node.constraints.vertical).recipe.verticalMiddle b)
      ((verticalRule node.constraints.vertical).recipe.verticalMiddle { b with top }) := by
  rcases hnode with htop | hbottom
  · rw [htop]
    exact .cons (fun hfixed => absurd ⟨rfl, htop⟩ hfixed) .nil
  · -- The lower margin is measured from the parent alone.
    rw [hbottom]
    exact .refl _

theorem agreesBut_placeVertical {node : Node} (hnode : node.Hangs) (b : Bounds) (top : Float)
    (outer : StyleMap) {s t : StyleMap} (h : AgreesBut node.Moves s t) :
    AgreesBut node.Moves (placeVertical node.constraints.vertical b ⟨outer, s⟩).middle
      (placeVertical node.constraints.vertical { b with top } ⟨outer, t⟩).middle := by
  have hrecipe := Recipe.agreesBut_verticalMiddle hnode b top
  rw [placeVertical, placeVertical]
  rcases hrule : verticalRule node.constraints.vertical with ⟨recipe, pinSize⟩
  rw [hrule] at hrecipe
  have hsized := StyleMap.agreesBut_merge h (recipe.measured "height" b.height)
  have hplaced := hrecipe.putAll (StyleMap.agreesBut_set hsized "position" "relative")
  cases pinSize with
  | false => exact hplaced
  | true => exact StyleMap.agreesBut_set (hplaced.erase "height") "minHeight" b.height

end Placement

section Paint

variable {varies : String → Prop} {s t : StyleMap}

theorem agreesBut_paintFrame (h : Table.AgreesBut varies s t) (attrs : NodeAttributes) :
    Table.AgreesBut varies (paintFrame attrs s) (paintFrame attrs t) := by
  have hcolored := StyleMap.agreesBut_set? h "backgroundColor" (attrs.backgroundColor.map fun c => .text c.css)
  rw [paintFrame, paintFrame]
  split
  · exact StyleMap.agreesBut_set hcolored "overflow" "hidden"
  · exact hcolored

theorem agreesBut_addEffect (h : Table.AgreesBut varies s t) (hshadow : ¬varies "boxShadow")
    (hfilter : ¬varies "filter") (e : Effect) : Table.AgreesBut varies (addEffect s e) (addEffect t e) := by
  rw [addEffect, addEffect]
  split
  · exact StyleMap.agreesBut_append h hshadow _
  · exact StyleMap.agreesBut_append h hshadow _
  · exact StyleMap.agreesBut_append h hfilter _
  · exact h

theorem agreesBut_addEffects (h : Table.AgreesBut varies s t) (hshadow : ¬varies "boxShadow")
    (hfilter : ¬varies "filter") (effects : List Effect) :
    Table.AgreesBut varies (effects.foldl addEffect s) (effects.foldl addEffect t) := by
  induction effects generalizing s t with
  | nil => exact h
  | cons e effects ih => exact ih (agreesBut_addEffect h hshadow hfilter e)

theorem agreesBut_paintRectangle (h : Table.AgreesBut varies s t) (hshadow : ¬varies "boxShadow")
    (hfilter : ¬varies "filter") (ctx : Context) (attrs : NodeAttributes) :
    Table.AgreesBut varies (paintRectangle ctx attrs s) (paintRectangle ctx attrs t) := by
  have hfilled := StyleMap.agreesBut_merge h (((visiblePaint? attrs.fills).map (fillStyles ctx)).getD [])
  have heffects := agreesBut_addEffects hfilled hshadow hfilter (attrs.effects.filter (·.visible))
  exact StyleMap.agreesBut_merge (StyleMap.agreesBut_merge heffects _) _

end Paint

namespace Visit

open Table

def Shifts (v v' : Visit) : Prop :=
  v.node.Hangs ∧ ∃ previous middle,
    v' = { v with place := { v.place with previous }, middle } ∧ AgreesBut v.node.Moves v.middle middle

variable {v v' : Visit}

namespace Shifts

theorem editMiddle (h : v.Shifts v') {f : StyleMap → StyleMap}
    (hf : ∀ s t, AgreesBut v.node.Moves s t → AgreesBut v.node.Moves (f s) (f t)) :
    Shifts { v with middle := f v.middle } { v' with middle := f v'.middle } := by
  obtain ⟨hnode, previous, middle, rfl, hmiddle⟩ := h
  exact ⟨hnode, previous, f middle, rfl, hf _ _ hmiddle⟩

theorem setMiddle (h : v.Shifts v') (property : String) (value : StyleValue) :
    (v.setMiddle property value).Shifts (v'.setMiddle property value) :=
  h.editMiddle fun _ _ hst => StyleMap.agreesBut_set hst property value

theorem node_eq (h : v.Shifts v') : v'.node = v.node := by
  obtain ⟨-, _, _, rfl, -⟩ := h
  rfl

theorem exists_bounds? (h : v.Shifts v') :
    v.bounds? = none ∧ v'.bounds? = none ∨ ∃ b top, v.bounds? = some b ∧ v'.bounds? = some { b with top } := by
  obtain ⟨-, _, _, rfl, -⟩ := h
  exact Placement.exists_bounds?_previous ..

theorem orderMiddle (h : v.Shifts v') : v.orderMiddle.Shifts v'.orderMiddle := by
  have horder : v'.place.order = v.place.order := by
    obtain ⟨-, _, _, rfl, -⟩ := h
    rfl
  rw [Visit.orderMiddle, Visit.orderMiddle, horder]
  split
  · exact h.setMiddle ..
  · exact h

theorem rotate (h : v.Shifts v') : v.rotate.Shifts v'.rotate := by
  rw [Visit.rotate, Visit.rotate, h.node_eq]
  rcases h.exists_bounds? with ⟨hb, hb'⟩ | ⟨b, top, hb, hb'⟩
  · rw [hb, hb']
    exact h
  · rw [hb, hb']
    dsimp only
    split
    · exact (h.setMiddle ..).setMiddle ..
    · exact h

theorem alignHorizontally (h : v.Shifts v') : v.alignHorizontally.Shifts v'.alignHorizontally := by
  rw [Visit.alignHorizontally, Visit.alignHorizontally, h.node_eq]
  rcases h.exists_bounds? with ⟨hb, hb'⟩ | ⟨b, top, hb, hb'⟩
  · rw [hb, hb']
    exact h
  · rw [hb, hb']
    obtain ⟨hnode, previous, middle, rfl, hmiddle⟩ := h
    refine ⟨hnode, previous, _, rfl, ?_⟩
    -- No recipe reads `top` on this axis, so that both visits merge the same.
    exact StyleMap.agreesBut_merge (StyleMap.agreesBut_merge (StyleMap.agreesBut_merge hmiddle _) _) _

theorem alignVertically (h : v.Shifts v') : v.alignVertically.Shifts v'.alignVertically := by
  rw [Visit.alignVertically, Visit.alignVertically, h.node_eq]
  rcases h.exists_bounds? with ⟨hb, hb'⟩ | ⟨b, top, hb, hb'⟩
  · rw [hb, hb']
    exact h
  · rw [hb, hb']
    obtain ⟨hnode, previous, middle, rfl, hmiddle⟩ := h
    exact ⟨hnode, previous, _, rfl, Placement.agreesBut_placeVertical hnode b top v.outer hmiddle⟩

theorem paint (h : v.Shifts v') (ctx : Context) : (v.paint ctx).Shifts (v'.paint ctx) := by
  obtain ⟨hnode, previous, middle, rfl, hmiddle⟩ := h
  rw [Visit.paint, Visit.paint]
  dsimp only
  split
  · exact ⟨hnode, previous, _, rfl, agreesBut_paintFrame hmiddle v.node.attrs⟩
  · split
    · refine ⟨hnode, previous, _, rfl, agreesBut_paintRectangle hmiddle ?_ ?_ ctx v.node.attrs⟩
      · exact fun hmoves => absurd hmoves.1 (by decide)
      · exact fun hmoves => absurd hmoves.1 (by decide)
    · exact ⟨hnode, previous, middle, rfl, hmiddle⟩

theorem composeMask (h : v.Shifts v') (ctx : Context) : (v.composeMask ctx).Shifts (v'.composeMask ctx) := by
  obtain ⟨hnode, previous, middle, rfl, hmiddle⟩ := h
  rw [Visit.composeMask, Visit.composeMask]
  dsimp only
  split
  · exact ⟨hnode, previous, middle, rfl, hmiddle⟩
  · exact ⟨hnode, previous, _, rfl, StyleMap.agreesBut_merge (StyleMap.agreesBut_merge hmiddle _) _⟩

theorem foldl_setMiddle (h : v.Shifts v') (properties : List String) (value : StyleValue) :
    Shifts (properties.foldl (fun v property => v.setMiddle property value) v)
      (properties.foldl (fun v property => v.setMiddle property value) v') := by
  induction properties generalizing v v' with
  | nil => exact h
  | cons property properties ih => exact ih (h.setMiddle property value)

end Shifts

end Visit

namespace Work

/-- Works in one scope on two visits of a node after different siblings. -/
structure Shifts (w w' : Work) : Prop where
  visit : w.visit.Shifts w'.visit
  scope_eq : w'.scope = w.scope

variable {w w' : Work} {ctx : Context}

def loseMargins (w : Work) : Work :=
  if w.visit.place.parent.any (·.attrs.isStack) then
    w.editVisit fun v => margins.foldl (fun v side => v.setMiddle side (.number 0)) v
  else w

def arrange (w : Work) : Work :=
  let attrs := w.visit.node.attrs
  let spacing := attrs.itemSpacing.getD 0
  match attrs.layoutMode with
  | none | some .none => w
  | some mode =>
    let (number, w) := w.allot
    let w := w.editVisit fun v =>
      { v with
        inner := v.inner.merge (stackContainer mode spacing)
        middle := v.middle.merge (stackLimit mode) }
    let w := w.editScope fun s =>
      s.addExtra (.allotted number " > * > *" (itemDeclarations mode spacing))
    w.editVisit fun v => v.addClass (.numbered number)

theorem layOut_eq (w : Work) : w.layOut = w.loseMargins.arrange := rfl

theorem Shifts.loseMargins (h : w.Shifts w') : w.loseMargins.Shifts w'.loseMargins := by
  have hparent : w'.visit.place.parent = w.visit.place.parent := by
    obtain ⟨-, _, _, hv, -⟩ := h.visit
    rw [hv]
  rw [Work.loseMargins, Work.loseMargins, hparent]
  split
  · exact ⟨h.visit.foldl_setMiddle margins (.number 0), h.scope_eq⟩
  · exact h

theorem Shifts.arrange (h : w.Shifts w') : w.arrange.Shifts w'.arrange := by
  obtain ⟨⟨hnode, previous, middle, hv, hmiddle⟩, hscope⟩ := h
  obtain ⟨visit, scope⟩ := w'
  obtain rfl : scope = w.scope := hscope
  obtain rfl : visit = _ := hv
  unfold Work.arrange
  dsimp only
  split
  · exact ⟨⟨hnode, previous, middle, rfl, hmiddle⟩, rfl⟩
  · exact ⟨⟨hnode, previous, middle, rfl, hmiddle⟩, rfl⟩
  · exact ⟨⟨hnode, previous, _, rfl, StyleMap.agreesBut_merge hmiddle _⟩, rfl⟩

theorem Shifts.layOut (h : w.Shifts w') : w.layOut.Shifts w'.layOut := by
  rw [layOut_eq, layOut_eq]
  exact h.loseMargins.arrange

theorem Shifts.apply (h : w.Shifts w') (p : StylePlugin) : (p.apply ctx w).Shifts (p.apply ctx w') := by
  cases p with
  | middleOrder => exact ⟨h.visit.orderMiddle, h.scope_eq⟩
  | transformation => exact ⟨h.visit.rotate, h.scope_eq⟩
  | horizontalAlign => exact ⟨h.visit.alignHorizontally, h.scope_eq⟩
  | verticalAlign => exact ⟨h.visit.alignVertically, h.scope_eq⟩
  | autoLayout => exact h.layOut
  | frameStyles => exact ⟨h.visit.paint ctx, h.scope_eq⟩
  | maskCompositing => exact ⟨h.visit.composeMask ctx, h.scope_eq⟩

def applyAll (ctx : Context) (plugins : List StylePlugin) (w : Work) : Work :=
  plugins.foldl (fun w plugin => plugin.apply ctx w) w

theorem Shifts.applyAll (h : w.Shifts w') (plugins : List StylePlugin) :
    (w.applyAll ctx plugins).Shifts (w'.applyAll ctx plugins) := by
  induction plugins generalizing w w' with
  | nil => exact h
  | cons plugin plugins ih => exact ih (h.apply plugin)

theorem Shifts.start {node : Node} (hnode : node.Hangs) (place : Place) (previous previous' : Option Node)
    (scope : Scope) :
    Shifts ⟨.start node { place with previous }, scope⟩
      ⟨.start node { place with previous := previous' }, scope⟩ := by
  refine ⟨?_, rfl⟩
  rw [Visit.start, Visit.start, Visit.isRoot, Visit.isRoot]
  dsimp only
  split
  · exact ⟨hnode, previous', _, rfl, .refl _⟩
  · exact ⟨hnode, previous', _, rfl, .refl _⟩

theorem same_applyAll (ctx : Context) (plugins : List StylePlugin) (w : Work) :
    Visit.Same w.visit (w.applyAll ctx plugins).visit := by
  induction plugins generalizing w with
  | nil => exact .refl _
  | cons plugin plugins ih => exact (Visit.Same.applyStyle plugin w).trans (ih _)

/-- All style plugins see the node that is visited where it stood before the first. -/
theorem stands_applyAll (ctx : Context) (plugins : List StylePlugin) (node : Node) (place : Place)
    (scope : Scope) :
    (applyAll ctx plugins ⟨.start node place, scope⟩).visit.node = node ∧
      (applyAll ctx plugins ⟨.start node place, scope⟩).visit.place = place := by
  have hsame := same_applyAll ctx plugins ⟨.start node place, scope⟩
  have hstart : (Visit.start node place).node = node ∧ (Visit.start node place).place = place := by
    rw [Visit.start]
    split <;> exact ⟨rfl, rfl⟩
  exact ⟨hsame.node_eq.trans hstart.1, hsame.place_eq.trans hstart.2⟩

end Work

theorem Turn.forall_of_mem_stack {p : Nat → Prop} {previous : Option Nat} {entries : List ChildEntry}
    {t : Turn} (h : t ∈ stack previous entries) (hprevious : ∀ q ∈ previous, p q) (he : ∀ e ∈ entries, p e.node) :
    p t.node ∧ ∀ q ∈ t.previous, p q := by
  induction entries generalizing previous with
  | nil => cases h
  | cons e rest ih =>
      have hfirst := he e List.mem_cons_self
      rcases List.mem_cons.1 h with rfl | h
      · exact ⟨hfirst, hprevious⟩
      · refine ih h ?_ fun e he' => he e (List.mem_cons_of_mem _ he')
        rintro q ⟨⟩
        exact hfirst

theorem Forest.verticalOf_of_mem_turns {f : Forest} {i q : Nat} {t : Turn}
    (h : t ∈ (f.buckets i).turns) (hq : t.previous = some q) :
    f.verticalOf t.node = f.verticalOf q ∧ (f.verticalOf t.node = .top ∨ f.verticalOf t.node = .bottom) := by
  -- The two stacks are alike but for the edge that their items hang from.
  have hstack : ∀ vertical, t ∈ Turn.stack none
      (f.sortByTop ((f.entries i).filter fun e => f.verticalOf e.node = vertical)) →
      f.verticalOf t.node = vertical ∧ f.verticalOf q = vertical := by
    intro vertical ht
    obtain ⟨hnode, hprevious⟩ := Turn.forall_of_mem_stack (p := fun n => f.verticalOf n = vertical) ht nofun
      fun e he => of_decide_eq_true (mem_sortByTop_filter.1 he).2
    exact ⟨hnode, hprevious q hq⟩
  rw [Buckets.turns, List.mem_append, List.mem_append] at h
  rcases h with (h | h) | h
  · obtain ⟨hnode, hprevious⟩ := hstack .top h
    exact ⟨hnode.trans hprevious.symm, .inl hnode⟩
  · obtain ⟨e, -, rfl⟩ := List.mem_map.1 h
    cases hq
  · obtain ⟨hnode, hprevious⟩ := hstack .bottom h
    exact ⟨hnode.trans hprevious.symm, .inr hnode⟩

theorem Forest.verticalOf_eq {f : Forest} {i : Nat} {node : Node} (found : f.get? i = some node) :
    f.verticalOf i = node.constraints.vertical := by
  rw [verticalOf, found]
  rfl

theorem Call.Reaches.hangs {ctx : Context} {i : Nat} {r : Registry} {d : Draw} {node p : Node}
    (h : Call.Reaches ctx (.build i r) (.draw d)) (found : ctx.forest.get? d.node = some node)
    (hp : d.place.previous = some p) : node.constraints.vertical = p.constraints.vertical ∧ node.Hangs := by
  obtain heq | ⟨c, -, hmakes⟩ := Relation.ReflTransGen.cases_tail h
  · cases heq
  · cases hmakes with
    | body => cases hp
    | child hdraws =>
        cases hdraws with
        | @child parent rendered s u before after t drawn foundParent entered turns earlier =>
            obtain ⟨q, hq, foundPrevious⟩ := Option.bind_eq_some_iff.1 hp
            have hturn : t ∈ (ctx.forest.buckets _).turns := turns ▸ List.mem_append_right _ List.mem_cons_self
            have hvertical := Forest.verticalOf_of_mem_turns hturn hq
            rwa [Forest.verticalOf_eq found, Forest.verticalOf_eq foundPrevious] at hvertical

/-- The sibling before a node decides no more than the upper margin of an item of a stack. In a build only
nodes that hang from an edge have one, so that all style plugins place the others by their distance from the
top of the parent. For nodes that hang from an edge it changes no style of any wrapper but the value of
`marginTop`, and that only if they hang from the top. -/
theorem previous_decides_top_margin (ctx : Context) :
    (∀ i r d node, Call.Reaches ctx (.build i r) (.draw d) → ctx.forest.get? d.node = some node →
      (∀ p, d.place.previous = some p →
        node.constraints.vertical = p.constraints.vertical ∧ node.Hangs) ∧
      (¬node.Hangs → ∀ parent, d.place.parent = some parent → ∀ (plugins : List StylePlugin) (scope : Scope),
        ∃ b, (Work.applyAll ctx plugins ⟨.start node d.place, scope⟩).visit.bounds? = some b ∧
          b.top = (Placement.boxOf node.attrs).y - (Placement.boxOf parent.attrs).y)) ∧
    ∀ (node : Node) (place : Place) (p : Node) (scope : Scope), node.Hangs →
      let first := (Work.applyStyles ctx ⟨.start node { place with previous := none }, scope⟩).visit
      let after := (Work.applyStyles ctx ⟨.start node { place with previous := some p }, scope⟩).visit
      after.outer = first.outer ∧ after.inner = first.inner ∧
      (node.constraints.vertical = .top → Table.AgreesBut (· = "marginTop") first.middle after.middle) ∧
      (node.constraints.vertical = .bottom → after.middle = first.middle) := by
  constructor
  · intro i r d node h found
    refine ⟨fun p hp => h.hangs found hp, fun hnode parent hparent plugins scope => ?_⟩
    have hprevious : d.place.previous = none :=
      Option.eq_none_iff_forall_ne_some.2 fun p hp => hnode (h.hangs found hp).2
    obtain ⟨hsame, hplace⟩ := Work.stands_applyAll ctx plugins node d.place scope
    rw [Visit.bounds?, hsame, hplace, hparent, hprevious]
    exact ⟨_, rfl, rfl⟩
  · intro node place p scope hnode first after
    have hshifts : first.Shifts after :=
      ((Work.Shifts.start hnode place none (some p) scope).applyAll ctx.plugins.style).visit
    have hsame := (Work.stands_applyAll ctx ctx.plugins.style node { place with previous := none } scope).1
    obtain ⟨-, _, middle, hafter, hmiddle⟩ := hshifts
    have hnodes : first.node = node := hsame
    rw [hnodes] at hmiddle
    rw [hafter]
    refine ⟨rfl, rfl, fun htop => ?_, fun hbottom => ?_⟩
    · exact hmiddle.mono fun property hmoves => hmoves.1
    · refine (hmiddle.eq ?_).symm
      rintro property ⟨-, htop⟩
      rw [hbottom] at htop
      cases htop

def threeLines : Context where
  forest := (NormalizedScene.ofCanvas {}
    { attrs := { id := "0:0", name := "Page", kind := .canvas }
      children :=
        [{ attrs := { id := "1", name := "#Card", absoluteBox := some ⟨0, 0, 50, 200⟩ }
           children :=
            [{ attrs := { id := "2", name := "first", kind := .rectangle
                          absoluteBox := some ⟨0, 10, 50, 30⟩ } },
              { attrs := { id := "3", name := "second", kind := .rectangle
                           absoluteBox := some ⟨0, 50, 50, 30⟩ } },
              { attrs := { id := "4", name := "third", kind := .rectangle
                           absoluteBox := some ⟨0, 90, 50, 30⟩
                           constraints := some ⟨.left, .center⟩ } }] }] }).forest
  options := {}
  resources := {}
  descriptions := []

theorem turns_threeLines :
    (threeLines.forest.buckets 0).turns = [⟨1, none, 0⟩, ⟨2, some 1, 1⟩, ⟨3, none, 2⟩] := by
  have htop : (threeLines.forest.entries 0).filter (fun e => threeLines.forest.verticalOf e.node = .top) =
      [⟨1, 0⟩, ⟨2, 1⟩] := by decide +kernel
  have hcenter : (threeLines.forest.entries 0).filter (fun e =>
      threeLines.forest.verticalOf e.node ≠ .top ∧ threeLines.forest.verticalOf e.node ≠ .bottom) =
      [⟨3, 2⟩] := by decide +kernel
  have hbottom : (threeLines.forest.entries 0).filter (fun e => threeLines.forest.verticalOf e.node = .bottom) =
      [] := by decide +kernel
  have hsorted : threeLines.forest.sortByTop [⟨1, 0⟩, ⟨2, 1⟩] = [⟨1, 0⟩, ⟨2, 1⟩] :=
    List.mergeSort_of_pairwise (by decide)
  have hnil : threeLines.forest.sortByTop [] = [] := List.mergeSort_nil
  rw [Forest.buckets]
  dsimp only
  rw [htop, hcenter, hbottom, hsorted, hnil]
  rfl

def enterCard (card : Node) : Except DesignError (Bool × Rendered) × Scope × Registry :=
  exec (enterNode threeLines 0 card {})
    (.start threeLines (threeLines.nameOf card), Registry.opened (threeLines.nameOf card) {})

theorem reaches_threeLines {card : Node} (found : threeLines.forest.get? 0 = some card)
    (hentered : (enterCard card).1.toOption.map Prod.fst = some false) (before : List Turn) (turn : Turn)
    {after : List Turn} (hturns : (threeLines.forest.buckets 0).turns = before ++ turn :: after)
    (hearlier : (exec (drawTurns threeLines card before) (enterCard card).2).1.isOk) :
    ∃ s r, Call.Reaches threeLines (.build 0 {}) (.draw ⟨turn.node, turn.place threeLines card, s, r⟩) := by
  obtain ⟨drawn, hdrawn⟩ := exists_ok_of_isOk hearlier
  rcases hresult : (enterCard card).1 with e | ⟨cleared, rendered⟩ <;> rw [hresult] at hentered
  · cases hentered
  · obtain rfl : cleared = false := Option.some.inj hentered
    have hdraws : Draw.Draws threeLines
        ⟨0, {}, .start threeLines (threeLines.nameOf card), Registry.opened (threeLines.nameOf card) {}⟩ _ :=
      .child found (Prod.ext hresult rfl) hturns (Prod.ext hdrawn rfl)
    exact ⟨_, _, .tail (.single (.body found rfl List.not_mem_nil)) (.child hdraws)⟩

/-- The second line of the card has the first before it, and nothing but its upper margin depends on that.
The third has none, and is placed by its distance from the top of the card. -/
theorem previous_decides_top_margin_threeLines :
    ∃ card first second third s r s' r', threeLines.forest.get? 2 = some second ∧
      threeLines.forest.get? 3 = some third ∧
      Call.Reaches threeLines (.build 0 {}) (.draw ⟨2, ⟨some card, some first, 1⟩, s, r⟩) ∧
      Call.Reaches threeLines (.build 0 {}) (.draw ⟨3, ⟨some card, none, 2⟩, s', r'⟩) ∧
      second.constraints.vertical = first.constraints.vertical ∧
      (∃ b, (Work.applyAll threeLines threeLines.plugins.style
          ⟨.start third ⟨some card, none, 2⟩, s'⟩).visit.bounds? = some b ∧
        b.top = (Placement.boxOf third.attrs).y - (Placement.boxOf card.attrs).y) ∧
      let alone := (Work.applyStyles threeLines ⟨.start second ⟨some card, none, 1⟩, s⟩).visit
      let after := (Work.applyStyles threeLines ⟨.start second ⟨some card, some first, 1⟩, s⟩).visit
      after.outer = alone.outer ∧ after.inner = alone.inner ∧
      Table.AgreesBut (· = "marginTop") alone.middle after.middle := by
  obtain ⟨card, foundCard, hentered, hfirst, hsecond⟩ : ∃ card, threeLines.forest.get? 0 = some card ∧
      (enterCard card).1.toOption.map Prod.fst = some false ∧
      (exec (drawTurns threeLines card [⟨1, none, 0⟩]) (enterCard card).2).1.isOk ∧
      (exec (drawTurns threeLines card [⟨1, none, 0⟩, ⟨2, some 1, 1⟩]) (enterCard card).2).1.isOk :=
    ⟨_, rfl, by decide, by decide +kernel, by decide +kernel⟩
  obtain ⟨first, foundFirst⟩ : ∃ first, threeLines.forest.get? 1 = some first := ⟨_, rfl⟩
  obtain ⟨second, foundSecond, htop⟩ : ∃ second, threeLines.forest.get? 2 = some second ∧
    second.constraints.vertical = .top := ⟨_, rfl, rfl⟩
  obtain ⟨third, foundThird, hcenter⟩ : ∃ third, threeLines.forest.get? 3 = some third ∧
    third.constraints.vertical = .center := ⟨_, rfl, rfl⟩
  have hplace : Turn.place threeLines card ⟨2, some 1, 1⟩ = ⟨some card, some first, 1⟩ := by
    rw [Turn.place, Option.bind_some, foundFirst]
  obtain ⟨s, r, hreach⟩ := reaches_threeLines foundCard hentered
    [⟨1, none, 0⟩] ⟨2, some 1, 1⟩ turns_threeLines hfirst
  obtain ⟨s', r', hreach'⟩ := reaches_threeLines foundCard hentered
    [⟨1, none, 0⟩, ⟨2, some 1, 1⟩] ⟨3, none, 2⟩ turns_threeLines hsecond
  rw [hplace] at hreach
  obtain ⟨hbuild, hstyles⟩ := previous_decides_top_margin threeLines
  refine ⟨card, first, second, third, s, r, s', r', foundSecond, foundThird, hreach, hreach',
    ((hbuild 0 {} _ second hreach foundSecond).1 first rfl).1, ?_, ?_⟩
  · refine (hbuild 0 {} _ third hreach' foundThird).2 ?_ card rfl threeLines.plugins.style s'
    rw [Node.Hangs, hcenter]
    decide
  · obtain ⟨houter, hinner, hmiddle, -⟩ := hstyles second ⟨some card, none, 1⟩ first s (.inl htop)
    exact ⟨houter, hinner, hmiddle htop⟩

end DesignCompiler

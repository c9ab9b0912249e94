import Mathlib.Data.List.ReduceOption
import DesignCompiler.Proofs.Numerals
import DesignCompiler.Proofs.Threads

namespace DesignCompiler

open Step

variable {ctx : Context}

theorem numberedClass_injective (stem : String) : Function.Injective (numberedClass stem) := by
  intro m n h
  have hs : toString m = toString n := (String.append_right_inj stem).1 h
  rw [← Decimal.natOfDigits_toString m, hs, Decimal.natOfDigits_toString]

def Wrapper.rules : Wrapper → List Rule
  | .outer r | .inner r => [r]
  | .middle h => h.rule.toList

def Wrapper.numbers : Wrapper → List Nat
  | .outer r | .inner r => [r.number]
  | .middle h => h.numbers

namespace Tag

def rules : Tag → List Rule
  | .opening _ w => w.rules
  | .fragment _ f => f.rules
  | .closing .. => []

def numbers : Tag → List Nat
  | .opening _ w => w.numbers
  | .fragment _ f => f.numbers
  | .closing .. => []

end Tag

theorem Head.mem_numbers_iff {h : Head} {n : Nat} :
    n ∈ h.numbers ↔ n ∈ h.rule.toList.map Rule.number ∨ n ∈ h.classes.filterMap ClassName.number? := by
  rw [numbers, classNames, List.filterMap_append, List.mem_append]
  cases h.rule <;> rfl

theorem Fragment.rules_of_unwritten {f : Fragment} (h : f.isWritten = false) : f.rules = [] := by
  cases f with
  | span | lineBreak | blankLine | input => cases h
  | _ => rfl

theorem Fragment.CarriesClass.of_isWritten {stem : String} {f : Fragment} (h : f.isWritten) :
    f.CarriesClass stem := by
  cases f with
  | drawing number drawn => cases h
  | _ => trivial

theorem Rendered.some_mem_of_mem_rules {d : Rendered} {w : Wrapper} (hw : w ∈ d.wrappers) {r : Rule}
    (hr : r ∈ w.rules) : some r ∈ [d.middle.rule, d.outer, d.inner] := by
  cases w with
  | outer r' =>
      obtain rfl := List.mem_singleton.1 hr
      have houter : d.outer = some r := by simpa [wrappers] using hw
      simp [houter]
  | middle h =>
      obtain rfl := eq_middle_of_mem_wrappers hw
      have hmiddle : d.middle.rule = some r := Option.mem_toList.1 hr
      simp [hmiddle]
  | inner r' =>
      obtain rfl := List.mem_singleton.1 hr
      have hinner : d.inner = some r := by simpa [wrappers] using hw
      simp [hinner]

theorem Rendered.mem_rules_of_mem_numbers {d : Rendered} {w : Wrapper} (hw : w ∈ d.wrappers) {n : Nat}
    (hn : n ∈ w.numbers) :
    n ∈ w.rules.map Rule.number ∨ n ∈ d.middle.classes.filterMap ClassName.number? := by
  cases w with
  | outer r => exact .inl hn
  | inner r => exact .inl hn
  | middle h =>
      obtain rfl := eq_middle_of_mem_wrappers hw
      exact Head.mem_numbers_iff.1 hn

namespace Node

variable {node : Node} {number : Nat} {attributes : Table String} {classes : List ClassName} {f : Fragment}

theorem some_mem_numbered (hf : f ∈ node.written number attributes classes) {r : Rule} (hr : r ∈ f.rules) :
    some r ∈ Rule.numbered number node.textStyles := by
  rcases cases_of_mem_written hf with ⟨hstyles, type, placeholder, rfl⟩ | ⟨rule, hrule, piece, rfl⟩
  · have hinput : r ∈ (Rule.of? number inputStyle).toList := hr
    rw [hstyles]
    exact Option.mem_toList.1 hinput ▸ List.mem_cons_self
  · rw [(piece.fragment_spec rule).2.1] at hr
    exact Option.mem_toList.1 hr ▸ hrule

theorem isWritten_of_mem (hf : f ∈ node.written number attributes classes) : f.isWritten := by
  rcases cases_of_mem_written hf with ⟨-, type, placeholder, rfl⟩ | ⟨rule, -, piece, rfl⟩
  · rfl
  · exact (piece.fragment_spec rule).1

theorem mem_rules_of_mem_numbers (hf : f ∈ node.written number attributes classes) {n : Nat}
    (hn : n ∈ f.numbers) : n ∈ f.rules.map Rule.number ∨ n ∈ classes.filterMap ClassName.number? := by
  rcases cases_of_mem_written hf with ⟨-, type, placeholder, rfl⟩ | ⟨rule, -, piece, rfl⟩
  · exact Head.mem_numbers_iff.1 hn
  · obtain ⟨-, hrules, hnumbers, -⟩ := piece.fragment_spec rule
    exact .inl (hrules ▸ hnumbers ▸ hn)

end Node

theorem Rule.numbered_append (n : Nat) (styles styles' : List StyleMap) :
    Rule.numbered n (styles ++ styles') =
      Rule.numbered n styles ++ Rule.numbered (n + styles.length) styles' := by
  induction styles generalizing n with
  | nil => rfl
  | cons style styles ih =>
      rw [List.cons_append, numbered, ih, List.length_cons, Nat.add_right_comm, Nat.add_assoc]
      rfl

namespace Scope

variable (s : Scope) (styles : List StyleMap)

theorem nextClass_addStyles : (s.addAll (styles.map .style)).nextClass = s.nextClass + styles.length := by
  have hone : ((styles.map Entry.style).map Entry.classes).sum = styles.length := by
    simp [Function.comp_def, Entry.classes]
  rw [nextClass_addAll, hone]

theorem rules_addStyles :
    (s.addAll (styles.map .style)).rules = s.rules ++ (Rule.numbered s.nextClass styles).reduceOption := by
  induction styles generalizing s with
  | nil => exact (List.append_nil _).symm
  | cons style styles ih =>
      have hfirst : ∀ rule : Option Rule, ∀ rest : List (Option Rule),
          (rule :: rest).reduceOption = rule.toList ++ rest.reduceOption := by
        intro rule rest
        cases rule <;> rfl
      refine (ih (s.addStyle style).2).trans ?_
      rw [rules_addStyle, nextClass_addStyle, Rule.numbered, hfirst, List.append_assoc]

end Scope

/-- The elements of a drawn node have the classes of rules that were made of their own styles: those of its
text, from the first class on, and then those of its wrappers. -/
structure Rendered.Styled (total : Scope) (node : Node) (v : Visit) (first : Nat) (d : Rendered) : Prop where
  text : ∃ placed, (∀ f ∈ placed, f.isWritten = false) ∧
    d.content = placed ++ node.written first node.attributes d.middle.classes
  middle : d.middle.rule = Rule.of? (first + node.textStyles.length) v.finish.middle
  outer : d.outer = Rule.of? (first + node.textStyles.length + 1) v.finish.outer
  inner : d.inner = Rule.of? (first + node.textStyles.length + 2) v.finish.inner
  rules : (Rule.numbered first (node.textStyles ++ [v.finish.middle, v.finish.outer, v.finish.inner])).reduceOption
    <:+: total.rules

namespace Rendered.Composed

variable {inside : Bool} {node : Node} {s u t total : Scope} {i : Import} {w : Work} {v : Visit} {d : Rendered}

theorem nextClass_text (h : d.Composed ctx inside node s i w v u t) :
    u.nextClass = w.scope.nextClass + node.textStyles.length := by
  rw [h.text_eq, Scope.nextClass_addStyles]

theorem styled (h : d.Composed ctx inside node s i w v u t) (ht : t.Grows total) :
    d.Styled total node v w.scope.nextClass where
  text := by
    refine ⟨w.visit.content, fun f hf => ?_, ?_⟩
    · exact (h.stands.fragments f (List.mem_append_right _ hf)).unwritten
    · rw [h.content_eq, h.middle_eq]
  middle := by rw [h.middle_eq, h.nextClass_text]
  outer := by rw [h.outer_eq, h.nextClass_text]
  inner := by rw [h.inner_eq, h.nextClass_text]
  rules := by
    have hstyles : t = w.scope.addAll
        ((node.textStyles ++ [v.finish.middle, v.finish.outer, v.finish.inner]).map .style) := by
      rw [h.scope_eq, h.text_eq, ← Scope.addAll_append, List.map_append]
      rfl
    have hadded := w.scope.rules_addStyles (node.textStyles ++ [v.finish.middle, v.finish.outer, v.finish.inner])
    rw [← hstyles] at hadded
    exact (hadded ▸ List.suffix_append ..).isInfix.trans ht.rules.isInfix

theorem mem_rules (h : d.Composed ctx inside node s i w v u t) (ht : t.Grows total) {tag : Tag}
    (htag : tag ∈ d.head ++ d.foot) {r : Rule} (hr : r ∈ tag.rules) : r ∈ total.rules := by
  have hstyled := h.styled ht
  have hentered : some r ∈ Rule.numbered w.scope.nextClass node.textStyles ++
      [d.middle.rule, d.outer, d.inner] → r ∈ total.rules := by
    intro hmem
    refine hstyled.rules.subset (List.reduceOption_mem_iff.2 ?_)
    rw [Rule.numbered_append]
    rwa [hstyled.middle, hstyled.outer, hstyled.inner] at hmem
  rcases Rendered.mem_head_foot_iff.1 htag with ⟨wrapper, hw, rfl⟩ | ⟨f, hf, rfl⟩ | ⟨wrapper, hw, rfl⟩
  · exact hentered (List.mem_append_right _ (Rendered.some_mem_of_mem_rules hw hr))
  · rw [h.prelude_eq, h.content_eq, ← List.append_assoc, List.mem_append] at hf
    rcases hf with hf | hf
    · have hnone := Fragment.rules_of_unwritten (h.stands.fragments f hf).unwritten
      rw [Tag.rules, hnone] at hr
      cases hr
    · exact hentered (List.mem_append_left _ (Node.some_mem_numbered hf hr))
  · cases hr

theorem numbers_lt (h : d.Composed ctx inside node s i w v u t) (ht : t.Grows total) (ha : total.Apart)
    {tag : Tag} (htag : tag ∈ d.head ++ d.foot) {n : Nat} (hn : n ∈ tag.numbers) : n < total.nextClass := by
  have hrules : n ∈ tag.rules.map Rule.number → n < total.nextClass := by
    intro hrule
    obtain ⟨r, hr, rfl⟩ := List.mem_map.1 hrule
    exact ha.lt _ (List.mem_append_left _ (List.mem_map_of_mem (h.mem_rules ht htag hr)))
  have hgrows := (h.grows_text.trans h.grows_wrappers).trans ht
  have hclasses : n ∈ w.visit.classes.filterMap ClassName.number? → n < total.nextClass :=
    fun hclass => (h.stands.classes n hclass).2.trans_le hgrows.nextClass_le
  rcases Rendered.mem_head_foot_iff.1 htag with ⟨wrapper, hw, rfl⟩ | ⟨f, hf, rfl⟩ | ⟨wrapper, hw, rfl⟩
  · have hwrapper := Rendered.mem_rules_of_mem_numbers hw hn
    rw [h.middle_eq] at hwrapper
    exact hwrapper.elim hrules hclasses
  · rw [h.prelude_eq, h.content_eq, ← List.append_assoc, List.mem_append] at hf
    rcases hf with hf | hf
    · exact ((h.stands.fragments f hf).numbers n hn).2.trans_le hgrows.nextClass_le
    · exact (Node.mem_rules_of_mem_numbers hf hn).elim hrules hclasses
  · cases hn

theorem carriesClass (h : d.Composed ctx inside node s i w v u t) (ht : t.Grows total) {f : Fragment}
    (hf : f ∈ d.prelude ++ d.content) : f.CarriesClass total.classPrefix := by
  rw [h.prelude_eq, h.content_eq, ← List.append_assoc, List.mem_append] at hf
  rcases hf with hf | hf
  · have hgrows := ((h.stands.grows.trans h.grows_text).trans h.grows_wrappers).trans ht
    rw [hgrows.prefix_eq]
    exact (h.stands.fragments f hf).carries
  · exact .of_isWritten (Node.isWritten_of_mem hf)

end Rendered.Composed

namespace Context

/-- The classes that a node takes: for its stack, for its component, for its vector, for its text and for
its wrappers. -/
def classCount (ctx : Context) (inside : Bool) (node : Node) : Nat :=
  node.stackEntries.length + (if inside && node.attrs.isComponentRoot then 1 else 0) +
    (ctx.vectorEntries node).length + node.textStyles.length + 3

def classesOf (ctx : Context) (root j : Nat) : Nat :=
  (ctx.forest.get? j).elim 0 (ctx.classCount (j != root))

theorem sum_classes_entries (ctx : Context) (inside : Bool) (node : Node) (i : Import) :
    ((ctx.entries inside node i).map Scope.Entry.classes).sum =
      node.stackEntries.length + (if inside && node.attrs.isComponentRoot then 1 else 0) +
        (ctx.vectorEntries node).length := by
  have hstack : (node.stackEntries.map Scope.Entry.classes).sum = node.stackEntries.length := by
    unfold Node.stackEntries
    split <;> rfl
  have hnested : ((ctx.nestedEntries inside node i).map Scope.Entry.classes).sum =
      if inside && node.attrs.isComponentRoot then 1 else 0 := by
    unfold nestedEntries
    cases inside with
    | false => rfl
    | true =>
        cases node.attrs.isComponentRoot with
        | true => rfl
        | false => cases ctx.descriptionStyles? node <;> rfl
  have hvector : ((ctx.vectorEntries node).map Scope.Entry.classes).sum = (ctx.vectorEntries node).length := by
    unfold vectorEntries stretchEntry
    dsimp only
    split
    · split <;> rfl
    · rfl
  have hdeclared : ((node.declarations.map fun d => Scope.Entry.property d.1 d.2).map
      Scope.Entry.classes).sum = 0 := by
    simp [Function.comp_def, Scope.Entry.classes]
  rw [entries, List.map_append, List.map_append, List.map_append, List.sum_append, List.sum_append,
    List.sum_append, hstack, hnested, hvector, hdeclared, Nat.add_zero]

end Context

theorem Rendered.Composed.nextClass_eq {inside : Bool} {node : Node} {s u t : Scope} {i : Import} {w : Work}
    {v : Visit} {d : Rendered} (h : d.Composed ctx inside node s i w v u t) :
    t.nextClass = s.nextClass + ctx.classCount inside node := by
  rw [h.addAll_eq, Scope.addAll_append, Scope.nextClass_addStyles, Scope.nextClass_addAll,
    ctx.sum_classes_entries, List.length_append, Context.classCount]
  simp only [List.length_cons, List.length_nil, Nat.add_assoc]

namespace Context.Threads

variable {inside : Bool} {s t : Scope} {d : Rendered} {rs : List Rendered}

theorem apart (hp : ctx.plugins = {}) (h : ctx.Threads inside s rs t) (hs : s.Apart) : t.Apart := by
  induction h with
  | nil => exact hs
  | cons found enters below beside ihbelow ihbeside =>
      obtain ⟨i, w, hd⟩ := enters.exists_composed hp
      exact ihbeside (ihbelow (hd.addAll_eq ▸ hs.addAll _))

theorem nextClass_inside (hp : ctx.plugins = {}) (h : ctx.Threads true s rs t) {root : Nat}
    (hroot : root ∉ rs.flatMap Rendered.nodes) :
    t.nextClass = s.nextClass + ((rs.flatMap Rendered.nodes).map (ctx.classesOf root)).sum := by
  generalize hi : true = inside at h
  induction h with
  | nil => rfl
  | @cons inside node s u t t' t'' v d rs found enters below beside ihbelow ihbeside =>
      subst hi
      obtain ⟨i, w, hd⟩ := enters.exists_composed hp
      rw [List.flatMap_cons, Rendered.nodes_eq, List.cons_append, List.mem_cons, List.mem_append] at hroot
      push Not at hroot
      have hown : ctx.classesOf root d.node = ctx.classCount true node := by
        rw [classesOf, found, bne_iff_ne.2 hroot.1.symm]
        rfl
      rw [ihbeside hroot.2.2 rfl, ihbelow hroot.2.1 rfl, hd.nextClass_eq, List.flatMap_cons,
        Rendered.nodes_eq, List.cons_append, List.map_cons, List.map_append, List.sum_cons, List.sum_append,
        hown, Nat.add_assoc, Nat.add_assoc]

end Context.Threads

namespace Component.IsDrawn

variable {c : Component}

theorem apart (hp : ctx.plugins = {}) (ht : ctx.forest.Tidy) (h : c.IsDrawn ctx) : c.scope.Apart := by
  obtain ⟨node, -, hthreads⟩ := h.exists_threads hp ht
  exact hthreads.apart hp ⟨List.Pairwise.nil, List.nodup_nil, by simp [Scope.subjects, Scope.start]⟩

theorem nextClass_eq (hp : ctx.plugins = {}) (ht : ctx.forest.Tidy) (h : c.IsDrawn ctx) :
    c.scope.nextClass = (c.body.nodes.map (ctx.classesOf c.root)).sum := by
  obtain ⟨hnode, hnodup, -⟩ := h.shown hp ht
  obtain ⟨_, -, hthreads⟩ := h.exists_threads hp ht
  rw [Rendered.nodes_eq, hnode, List.nodup_cons] at hnodup
  cases hthreads with
  | @cons _ node _ _ _ _ _ _ _ _ found enters below beside =>
      cases beside
      obtain ⟨i, w, hd⟩ := enters.exists_composed hp
      have hown : ctx.classesOf c.root c.root = ctx.classCount false node := by
        rw [hnode] at found
        rw [Context.classesOf, found, bne_self_eq_false]
        rfl
      rw [below.nextClass_inside hp hnodup.1, hd.nextClass_eq, Rendered.nodes_eq, List.map_cons, List.sum_cons,
        hnode, hown]
      exact congrArg (· + _) (Nat.zero_add _)

end Component.IsDrawn

/-- A nested build does not touch the counter of the component around it, whatever it builds. When it
succeeds the component around it takes one class for what the built component fills. -/
theorem nextClass_drawNested (build : Registering Component) (w : Work) (q : Registry) :
    (exec (drawNested ctx (some build)) (w, q)).2.1.scope.nextClass =
      w.scope.nextClass + if w.visit.node.attrs.isComponentRoot && (exec build q).1.isOk then 1 else 0 := by
  rw [exec_drawNested_some]
  split
  · next hroot =>
    rw [hroot]
    rcases exec build q with ⟨e | c, r⟩ <;> rfl
  · next hroot =>
    rw [Bool.not_eq_true] at hroot
    rw [hroot]
    unfold Work.addDescription
    split <;> rfl

/-- No two rules of a component have the same class, be they rules of elements or extra ones, and the rules of
the elements stand in the order of their classes. All classes on the elements were taken in this build, and
each wrapper and each piece of text has the class of the rule of its own styles. The counter is the sum of
what the shown nodes take, so that nested builds do not count. -/
theorem classes_of_build (hp : ctx.plugins = {}) {o : Options} {canvas : SceneNode}
    (hf : ctx.forest = (NormalizedScene.ofCanvas o canvas).forest) {i : Nat} {c : Component}
    {r s : Registry} (hr : r.Reachable ctx) (h : exec (buildComponent ctx i) r = (.ok c, s)) :
    c.markup = Tag.print c.scope.classPrefix c.body.tags ∧
      (c.scope.rules.map Rule.number).Pairwise (· < ·) ∧
      (∀ n ∈ c.scope.subjects, n < c.scope.nextClass) ∧
      (c.scope.subjects.map (numberedClass c.scope.classPrefix)).Nodup ∧
      (∀ tag ∈ c.body.tags, (∀ n ∈ tag.numbers, n < c.scope.nextClass) ∧ tag.rules ⊆ c.scope.rules) ∧
      (∀ d ∈ c.body.subtrees, ∀ f ∈ d.prelude ++ d.content, f.CarriesClass c.scope.classPrefix) ∧
      (∀ d ∈ c.body.subtrees, ∃ inside node s v u t first, ctx.forest.get? d.node = some node ∧
        ctx.Enters inside node s v u d t ∧ d.Styled c.scope node v first) ∧
      c.scope.nextClass = (c.body.nodes.map (ctx.classesOf c.root)).sum ∧
      ∀ (build : Registering Component) (w : Work) (q : Registry),
        (exec (drawNested ctx (some build)) (w, q)).2.1.scope.nextClass = w.scope.nextClass +
          if w.visit.node.attrs.isComponentRoot && (exec build q).1.isOk then 1 else 0 := by
  have ht : ctx.forest.Tidy := hf ▸ NormalizedScene.tidy_ofCanvas o canvas
  have hdrawn := isDrawn_of_build hr h
  have hapart := hdrawn.apart hp ht
  refine ⟨Rendered.print_eq .., hapart.increasing, hapart.lt, ?_, ?_, ?_, ?_, hdrawn.nextClass_eq hp ht,
    nextClass_drawNested⟩
  · exact hapart.nodup.map (numberedClass_injective _)
  · intro tag htag
    obtain ⟨d, hd, htag⟩ := Rendered.mem_tags_iff.1 htag
    obtain ⟨_, _, _, _, _, _, _, _, -, -, hcomposed, hgrows⟩ := hdrawn.exists_composed hp ht hd
    exact ⟨fun n hn => hcomposed.numbers_lt hgrows hapart htag hn,
      fun rule hrule => hcomposed.mem_rules hgrows htag hrule⟩
  · intro d hd f hf
    obtain ⟨_, _, _, _, _, _, _, _, -, -, hcomposed, hgrows⟩ := hdrawn.exists_composed hp ht hd
    exact hcomposed.carriesClass hgrows hf
  · intro d hd
    obtain ⟨_, _, _, _, _, _, _, _, found, henters, hcomposed, hgrows⟩ := hdrawn.exists_composed hp ht hd
    exact ⟨_, _, _, _, _, _, _, found, henters, hcomposed.styled hgrows⟩

theorem classes_cardWithPhoto :
    ∃ c s, exec (buildComponent cardWithPhoto 0) {} = (.ok c, s) ∧ c.scope.nextClass = 10 ∧
      (c.scope.subjects.map (numberedClass c.scope.classPrefix)).Nodup := by
  have hnodes := nodes_build_cardWithPhoto
  rcases hc : (exec (buildComponent cardWithPhoto 0) {}).1 with e | c <;> rw [hc] at hnodes
  · cases hnodes
  · have hbuild : exec (buildComponent cardWithPhoto 0) {} =
        (.ok c, (exec (buildComponent cardWithPhoto 0) {}).2) := Prod.ext hc rfl
    have hshown : c.body.nodes = [0, 3, 1] := Option.some.inj hnodes
    have hroot : c.root = 0 := by
      have hbody := c.body.nodes_eq
      rw [hshown, ((isDrawn_of_build .empty hbuild).shown rfl (NormalizedScene.tidy_ofCanvas ..)).1] at hbody
      exact (List.cons.inj hbody).1.symm
    obtain ⟨-, -, -, hnodup, -, -, -, hcount, -⟩ := classes_of_build rfl rfl .empty hbuild
    refine ⟨c, _, hbuild, ?_, hnodup⟩
    rw [hcount, hshown, hroot]
    decide

end DesignCompiler

import DesignCompiler.Proofs.Classes
import DesignCompiler.Proofs.Displayed

namespace DesignCompiler

open Step

variable {ctx : Context} {nested : Option (Registering Component)}

def Fragment.isSlot : Fragment → Bool
  | .slot _ => true
  | _ => false

namespace Fragment

theorem isPlaced_of_isSlot {f : Fragment} (h : f.isSlot) : f.isPlaced := by
  cases f with
  | slot => rfl
  | _ => cases h

theorem isSlot_eq_false_of_isWritten {f : Fragment} (h : f.isWritten) : f.isSlot = false := by
  cases f with
  | slot => cases h
  | _ => rfl

theorem displays_of_isPlaced {f : Fragment} (h : f.isPlaced) : f.displays := by
  cases f with
  | guard | guardEnd => cases h
  | _ => rfl

end Fragment

theorem slot_mem_blocksAround_iff {opened around : List Block} {before after : List Fragment}
    {prop prop' : String} (hbefore : ∀ f ∈ before, f.isSlot = false)
    (hafter : ∀ f ∈ after, f.isSlot = false) :
    (.slot prop', around) ∈ blocksAround opened (before ++ .slot prop :: after) ↔
      prop' = prop ∧ around = openAfter opened before := by
  have hnone : ∀ {opened : List Block} {fs : List Fragment}, (∀ f ∈ fs, f.isSlot = false) →
      (.slot prop', around) ∉ blocksAround opened fs := by
    intro opened fs hfs hmem
    cases hfs _ (mem_of_mem_blocksAround hmem)
  rw [blocksAround_append, List.mem_append, blocksAround, List.mem_cons]
  simp [hnone hbefore, hnone hafter]

theorem Closes.isSlot {n : Nat} {fs : List Fragment} (h : Closes n fs) (hn : n = 0) :
    ∀ f ∈ fs, f.isSlot := by
  induction h with
  | nil => simp
  | guardEnd => cases hn
  | slot _ prop ih =>
      intro f hf
      rcases List.mem_append.1 hf with hf | hf
      · exact ih hn f hf
      · rw [List.mem_singleton.1 hf]
        rfl

theorem Context.Places.isSlot_eq_false {inside : Bool} {node : Node} {placed : List Fragment}
    (h : ctx.Places inside node placed) (hslot : node.slot? = none) :
    ∀ f ∈ placed, f.isSlot = false := by
  cases h with
  | slot hslot' =>
      rw [hslot] at hslot'
      cases hslot'
  | vector _ _ _ hdrawn =>
      intro f hf
      cases f with
      | slot => cases hdrawn _ hf
      | _ => rfl
  | mask => simp
  | component => simp [Fragment.isSlot]
  | children => simp

/-- Some blocks are opened before the children of a node, and the first end after them comes right before
a property. -/
structure Rendered.FallsBack (r : Rendered) (blocks : List Block) (prop : String) : Prop where
  prelude_eq : r.prelude = blocks.map Block.opening
  balanced : ∀ c ∈ r.children, Balanced c.fragments
  content_eq : ∃ placed after, r.content = placed ++ [.guardEnd] ++ .slot prop :: after ∧
    (∀ f ∈ placed, f.isPlaced ∧ f.isSlot = false) ∧ ∀ f ∈ after, f.isSlot = false

/-- The children of a node stand in the block of its fallback and under all conditions on the node. Its
property stands outside of the fallback, and under all of the conditions or under none. -/
structure Rendered.KeepsApart (r : Rendered) (fallback : Block) (conditions : List Block) : Prop where
  children_within : ∀ c around, (.child c, around) ∈ partsAround [] r.parts →
    ∀ b ∈ fallback :: conditions, (Part.child c).LiesIn around b
  slot_outside : ∀ prop around, (.fragment (.slot prop), around) ∈ partsAround [] r.parts →
    fallback ∉ around
  slot_under : ∀ prop around, (.fragment (.slot prop), around) ∈ partsAround [] r.parts →
    (∀ b ∈ conditions, b ∈ around) ∨ ∀ b ∈ conditions, b ∉ around

namespace Rendered.FallsBack

variable {r : Rendered} {blocks : List Block} {prop : String}

theorem child_mem_partsAround_iff (h : r.FallsBack blocks prop) {c : Rendered} {around : List Block} :
    (.child c, around) ∈ partsAround [] r.parts ↔ c ∈ r.children ∧ around = blocks.reverse := by
  rw [partsAround_parts h.balanced, h.prelude_eq, openAfter_opening, List.append_nil]
  simp [eq_comm]

theorem slot_mem_partsAround_iff (h : r.FallsBack blocks prop) {prop' : String} {around : List Block} :
    (.fragment (.slot prop'), around) ∈ partsAround [] r.parts ↔
      prop' = prop ∧ around = blocks.reverse.tail := by
  obtain ⟨placed, after, hcontent, hplaced, hafter⟩ := h.content_eq
  have hbefore : ∀ f ∈ placed ++ [.guardEnd], f.isSlot = false := by
    intro f hf
    rcases List.mem_append.1 hf with hf | hf
    · exact (hplaced f hf).2
    · rw [List.mem_singleton.1 hf]
      rfl
  have hopening : (.slot prop', around) ∉ blocksAround [] (blocks.map Block.opening) := by
    intro hmem
    obtain ⟨b, -, hb⟩ := List.mem_map.1 (mem_of_mem_blocksAround hmem)
    cases hb
  have hopen : openAfter blocks.reverse (placed ++ [.guardEnd]) = blocks.reverse.tail := by
    rw [openAfter_append, (Framed.plain_of_placed fun f hf => (hplaced f hf).1).openAfter_eq]
    rfl
  rw [partsAround_parts h.balanced, h.prelude_eq, openAfter_opening, List.append_nil, hcontent, ← hopen,
    ← slot_mem_blocksAround_iff hbefore hafter]
  simp only [List.mem_append, List.mem_map]
  constructor
  · rintro ((⟨⟨f, opened⟩, hf, heq⟩ | ⟨c, -, heq⟩) | ⟨⟨f, opened⟩, hf, heq⟩)
    · cases heq
      cases hopening hf
    · cases heq
    · cases heq
      exact hf
  · exact fun hslot => .inr ⟨_, hslot, rfl⟩

/-- The first block is closed by the first end just when it is the only one. -/
theorem keepsApart_iff {fallback : Block} {conditions : List Block}
    (h : r.FallsBack (fallback :: conditions) prop) : r.KeepsApart fallback conditions ↔ conditions = [] := by
  constructor
  · intro hapart
    by_contra hne
    refine hapart.slot_outside prop _ (h.slot_mem_partsAround_iff.2 ⟨rfl, rfl⟩) ?_
    rw [List.reverse_cons, List.tail_append_of_ne_nil (by simpa using hne)]
    simp
  · rintro rfl
    refine ⟨?_, ?_, ?_⟩
    · intro c around hc b hb
      obtain ⟨hmem, rfl⟩ := h.child_mem_partsAround_iff.1 hc
      exact Part.LiesIn.of_balanced (p := .child c) (h.balanced c hmem) (List.mem_reverse.2 hb)
    · intro prop' around hslot
      obtain ⟨-, rfl⟩ := h.slot_mem_partsAround_iff.1 hslot
      simp
    · intro prop' around _
      exact .inl (by simp)

end Rendered.FallsBack

theorem Params.fallback_of_fallbackSlot? {node : Node} {prop : String}
    (h : node.fallbackSlot? = some prop) : node.params.fallback = [(.falsy, prop)] := by
  rw [Node.fallbackSlot?] at h
  rw [fallback, block?]
  split at h <;> rename_i hcontains
  · rw [if_pos hcontains, h]
    rfl
  · cases h

theorem Node.slot?_of_fallbackSlot? {node : Node} {prop : String} (h : node.fallbackSlot? = some prop) :
    node.slot? = none := by
  rw [Node.fallbackSlot?] at h
  rw [Node.slot?]
  split at h <;> rename_i hcontains
  · exact if_pos hcontains
  · cases h

def Params.ends (params : Params) : List Fragment :=
  (params.fallback.flatMap fun b => [.guardEnd, .slot b.2]) ++ params.conditions.map fun _ => .guardEnd

structure Visit.Ends (node : Node) (content : List Fragment) (v : Visit) : Prop where
  node_eq : v.node = node
  content_eq : v.content = content

namespace Visit.Ends

variable {node : Node} {content : List Fragment} {v : Visit} {w : Work}

theorem same (h : Ends node content v) {v' : Visit} (hs : Same v v') : Ends node content v' :=
  ⟨hs.node_eq.trans h.node_eq, hs.content_eq.trans h.content_eq⟩

theorem drawSlot (h : Ends node content w.visit) (hslot : node.slot? = none) :
    Ends node content w.drawSlot.visit := by
  rw [Node.slot?] at hslot
  rw [Work.drawSlot, Visit.params, h.node_eq]
  split
  · next prop hprop =>
    split
    · exact h
    · next hcontains => rw [if_neg hcontains, hprop] at hslot; cases hslot
  · exact h

theorem drawSlotFallback (h : Ends node content w.visit) :
    Ends node (content ++ node.params.fallback.flatMap fun b => [.guardEnd, .slot b.2])
      w.drawSlotFallback.visit := by
  rw [Work.drawSlotFallback, Params.fallback, Params.block?, Visit.params, h.node_eq]
  cases Params.value? "content" node.params with
  | none => simpa using h
  | some prop =>
      cases node.params.contains "contentIfEmpty" with
      | false => simpa using h
      | true =>
          refine ⟨h.node_eq, ?_⟩
          change w.visit.content ++ [.guardEnd] ++ [.slot prop] = _
          rw [h.content_eq, List.append_assoc]
          rfl

theorem drawGuard (h : Ends node content w.visit) (key : String) (g : Guard) :
    Ends node (content ++ (node.params.block? key g).toList.map fun _ => .guardEnd)
      (w.drawGuard key g).visit := by
  rw [Work.drawGuard, Params.block?, Visit.params, h.node_eq]
  cases Params.value? key node.params with
  | none => simpa using h
  | some prop => exact ⟨h.node_eq, congrArg (· ++ [Fragment.guardEnd]) h.content_eq⟩

theorem drawParameters (h : Ends node content w.visit) (hslot : node.slot? = none) :
    Ends node (content ++ node.params.ends) w.drawParameters.visit := by
  have hguards := (((h.drawSlot hslot).drawSlotFallback).drawGuard "ifTrue" .truthy).drawGuard
    "ifFalse" .falsy
  simp only [List.append_assoc, ← List.map_append] at hguards
  exact hguards

theorem drawText (h : Ends node content w.visit) :
    ∃ written : List Fragment, (∀ f ∈ written, f.isWritten) ∧
      Ends node (content ++ written) w.drawText.visit := by
  have hw := w.writes_drawText
  refine ⟨w.visit.node.written w.scope.nextClass w.visit.properties w.visit.classes,
    fun f hf => Node.isWritten_of_mem hf, hw.node_eq.trans h.node_eq, ?_⟩
  rw [hw.content_eq, h.content_eq]

theorem setNames (h : Ends node content w.visit) :
    Ends node content ((w.editVisit Visit.setId).editVisit Visit.addNamedClass).visit := by
  have hid := h.same (Same.setId w.visit)
  exact hid.same (Same.addNamedClass w.visit.setId)

theorem afterVector (h : Ends node content w.visit) (hslot : node.slot? = none) :
    ∃ written : List Fragment, (∀ f ∈ written, f.isWritten) ∧
      Ends node (content ++ node.params.ends ++ written) w.afterVector.visit := by
  have hclick := (h.drawParameters hslot).same (Same.bindClick w.drawParameters)
  exact (setNames (w := w.drawParameters.bindClick) hclick).drawText

end Visit.Ends

theorem Visit.IsFramed.isPlaced {node : Node} {v : Visit} (h : IsFramed node [] [] v) :
    ∀ f ∈ v.content, f.isPlaced := by
  obtain ⟨placed, ends, hcontent, hplaced, hends⟩ := h.framed.content_eq
  rw [hcontent, List.append_nil]
  intro f hf
  rcases List.mem_append.1 hf with hf | hf
  · exact hplaced f hf
  · exact Fragment.isPlaced_of_isSlot (hends.isSlot rfl f hf)

theorem exists_ends_of_draw (hp : ctx.plugins = {}) {node : Node} {place : Place} {v : Visit}
    {s t : Scope × Registry} (hslot : node.slot? = none)
    (h : exec ((Visit.start node place).draw ctx nested) s = (.ok v, t)) :
    ∃ placed written : List Fragment, (∀ f ∈ placed, f.isPlaced ∧ f.isSlot = false) ∧
      (∀ f ∈ written, f.isWritten) ∧ v.Ends node (placed ++ node.params.ends ++ written) := by
  have hstart : Visit.Same (.start node place) (Work.beforeNested ctx ⟨.start node place, s.1⟩).visit :=
    (Visit.Same.applyStyles ⟨_, s.1⟩).trans (Visit.Same.applyNameStyles _)
  rw [exec_draw_default hp] at h
  rcases hn : exec (drawNested ctx nested) (Work.beforeNested ctx ⟨.start node place, s.1⟩, s.2)
    with ⟨e | u, w, q⟩ <;> rw [hn] at h
  · cases h
  · dsimp only at h
    rcases hv : (w.editVisit Visit.hideMask).drawVector ctx with ⟨e | u, x⟩ <;> rw [hv] at h
    · cases h
    · obtain ⟨placed, hplaces, hx⟩ :=
        exists_places_of_drawNested ((Visit.Displays.start node place).same hstart) hn hv
      have hmask := (((Visit.IsFramed.start node place).same hstart).drawNested hn).hideMask
      have hplaced := (Visit.IsFramed.drawVector hmask hv).isPlaced
      -- All that is placed shows something, so nothing else stands beside it.
      have hcontent : x.visit.content = placed := by
        rw [← hx.content_eq, List.filter_eq_self.2 fun f hf => Fragment.displays_of_isPlaced (hplaced f hf)]
      have hends : x.visit.Ends node placed := ⟨hx.node_eq, hcontent⟩
      obtain ⟨written, hwritten, hafter⟩ := hends.afterVector hslot
      rw [← Except.ok.inj (Prod.mk.inj h).1]
      refine ⟨placed, written, fun f hf => ⟨?_, ?_⟩, hwritten, hafter⟩
      · exact hplaced f (hcontent ▸ hf)
      · exact (hplaces hslot).isSlot_eq_false hslot f hf

theorem exists_ends_of_enterNode (hp : ctx.plugins = {}) {i : Nat} {node : Node} {place : Place}
    {cleared : Bool} {r : Rendered} {s t : Scope × Registry} (hslot : node.slot? = none)
    (h : exec (enterNode ctx i node place) s = (.ok (cleared, r), t)) :
    ∃ placed written : List Fragment, (∀ f ∈ placed, f.isPlaced ∧ f.isSlot = false) ∧
      (∀ f ∈ written, f.isWritten) ∧ r.content = placed ++ node.params.ends ++ written := by
  obtain ⟨v, u, hv, h⟩ := exec_bind_eq_ok.1 h
  obtain ⟨placed, written, hplaced, hwritten, hends⟩ := exists_ends_of_draw hp hslot hv
  have hfinish := hends.same (Visit.Same.finish v)
  obtain ⟨r', u', hr, h⟩ := exec_bind_eq_ok.1 h
  rw [exec_pure] at h
  cases h
  cases hr
  exact ⟨placed, written, hplaced, hwritten, hfinish.content_eq⟩

theorem exists_ends_of_drawNode (hp : ctx.plugins = {}) {i : Nat} {node : Node} {place : Place}
    {r : Rendered} {s t : Scope × Registry} (found : ctx.forest.get? i = some node)
    (hslot : node.slot? = none) (h : exec (drawNode ctx i place) s = (.ok r, t)) :
    ∃ placed written : List Fragment, (∀ f ∈ placed, f.isPlaced ∧ f.isSlot = false) ∧
      (∀ f ∈ written, f.isWritten) ∧ r.content = placed ++ node.params.ends ++ written := by
  obtain ⟨node', rendered, u, found', hcases⟩ := exec_drawNode_eq_ok h
  obtain rfl := Option.some.inj (found.symm.trans found')
  have hcontent : r.content = rendered.content := by
    rcases hcases with ⟨-, rfl, -⟩ | ⟨-, children, -, rfl⟩ <;> rfl
  rw [hcontent]
  rcases hcases with ⟨entered, -, -⟩ | ⟨entered, -⟩
  · exact exists_ends_of_enterNode hp hslot entered
  · exact exists_ends_of_enterNode hp hslot entered

theorem fallsBack_of_drawNode (hp : ctx.plugins = {}) {i : Nat} {node : Node} {place : Place}
    {r : Rendered} {s t : Scope × Registry} {prop : String} (found : ctx.forest.get? i = some node)
    (hfallback : node.fallbackSlot? = some prop) (h : exec (drawNode ctx i place) s = (.ok r, t)) :
    r.FallsBack ((.falsy, prop) :: node.params.conditions) prop := by
  have hblocks := Params.fallback_of_fallbackSlot? hfallback
  obtain ⟨⟨_, hframed, -⟩, hdrawn⟩ := exists_framed_of_drawNode hp found h
  obtain ⟨placed, written, hplaced, hwritten, hcontent⟩ :=
    exists_ends_of_drawNode hp found (Node.slot?_of_fallbackSlot? hfallback) h
  refine ⟨?_, ?_, placed, (node.params.conditions.map fun _ => .guardEnd) ++ written, ?_, hplaced, ?_⟩
  · rw [hframed.prelude_eq, hblocks]
    rfl
  · intro c hc
    obtain ⟨turn, -, u, v, hdraw⟩ := hdrawn c hc
    exact balanced_of_drawNode hp hdraw
  · rw [hcontent, Params.ends, hblocks]
    simp
  · intro f hf
    rcases List.mem_append.1 hf with hf | hf
    · obtain ⟨b, -, rfl⟩ := List.mem_map.1 hf
      rfl
    · exact Fragment.isSlot_eq_false_of_isWritten (hwritten f hf)

/-- A node with a fallback closes all of its blocks, and its children stand in all of them. The one end
before its property closes the last of its blocks, so that the property is shown outside of the fallback
just when the node has no condition. -/
theorem fallback_keepsApart_iff (hp : ctx.plugins = {}) {i : Nat} {node : Node} {place : Place}
    {r : Rendered} {s t : Scope × Registry} {prop : String} (found : ctx.forest.get? i = some node)
    (hfallback : node.fallbackSlot? = some prop) (h : exec (drawNode ctx i place) s = (.ok r, t)) :
    Balanced r.fragments ∧
      (∀ c around, (.child c, around) ∈ partsAround [] r.parts ↔
        c ∈ r.children ∧ around = ((.falsy, prop) :: node.params.conditions).reverse) ∧
      (∀ prop' around, (.fragment (.slot prop'), around) ∈ partsAround [] r.parts ↔
        prop' = prop ∧ around = ((.falsy, prop) :: node.params.conditions).reverse.tail) ∧
      (r.KeepsApart (.falsy, prop) node.params.conditions ↔ node.params.conditions = []) := by
  have hback := fallsBack_of_drawNode hp found hfallback h
  exact ⟨balanced_of_drawNode hp h, fun _ _ => hback.child_mem_partsAround_iff,
    fun _ _ => hback.slot_mem_partsAround_iff, hback.keepsApart_iff⟩

def dotsUnlessEmpty : Context where
  forest := (NormalizedScene.ofCanvas {}
    { attrs := { id := "0:0", name := "Page", kind := .canvas }
      children :=
        [{ attrs := { id := "1", name := "#Badge??content=label&contentIfEmpty" }
           children := [{ attrs := { id := "2", name := "dot", kind := .rectangle } }] },
          { attrs := { id := "3", name := "#Title??content=label&contentIfEmpty&ifTrue=show" }
            children := [{ attrs := { id := "4", name := "dot", kind := .rectangle } }] }] }).forest
  options := {}
  resources := {}
  descriptions := []

theorem isOk_draw_labelled_badge :
    (exec (drawNode dotsUnlessEmpty 0 {}) (.start dotsUnlessEmpty "Badge", {})).1.isOk := by
  decide +kernel

/-- Without a condition the label is shown beside the fallback. -/
theorem fallback_keepsApart_badge :
    ∃ node r t, dotsUnlessEmpty.forest.get? 0 = some node ∧ node.fallbackSlot? = some "label" ∧
      exec (drawNode dotsUnlessEmpty 0 {}) (.start dotsUnlessEmpty "Badge", {}) = (.ok r, t) ∧
      r.KeepsApart (.falsy, "label") [] := by
  obtain ⟨r, hr⟩ := exists_ok_of_isOk isOk_draw_labelled_badge
  obtain ⟨node, found, hfallback, hconditions⟩ : ∃ node, dotsUnlessEmpty.forest.get? 0 = some node ∧
      node.fallbackSlot? = some "label" ∧ node.params.conditions = [] :=
    ⟨_, rfl, by decide +kernel, by decide +kernel⟩
  refine ⟨node, r, _, found, hfallback, Prod.ext hr rfl, ?_⟩
  have hapart := (fallback_keepsApart_iff rfl found hfallback (Prod.ext hr rfl)).2.2.2
  rw [hconditions] at hapart
  exact hapart.2 rfl

def Rendered.showsSlotIn (b : Block) (r : Rendered) : Bool :=
  (partsAround [] r.parts).any fun e =>
    match e.1 with
    | .fragment (.slot _) => decide (b ∈ e.2)
    | _ => false

theorem Rendered.not_keepsApart_of_showsSlotIn {r : Rendered} {b : Block} {conditions : List Block}
    (h : r.showsSlotIn b) : ¬r.KeepsApart b conditions := by
  intro hapart
  obtain ⟨⟨p, around⟩, he, hb⟩ := List.any_eq_true.1 h
  cases p with
  | child c => cases hb
  | fragment f =>
      cases f with
      | slot prop => exact hapart.slot_outside prop around he (of_decide_eq_true hb)
      | _ => cases hb

theorem showsSlotIn_title :
    (exec (drawNode dotsUnlessEmpty 2 {}) (.start dotsUnlessEmpty "Title", {})).1.toOption.any
      (Rendered.showsSlotIn (.falsy, "label")) := by
  decide +kernel

/-- Under a condition the label is shown in its own fallback, where it is empty. -/
theorem not_forall_keepsApart :
    ¬∀ (ctx : Context), ctx.plugins = {} → ∀ (i : Nat) (node : Node) (place : Place) (r : Rendered)
      (s t : Scope × Registry) (prop : String), ctx.forest.get? i = some node → node.kind ≠ .text →
        node.attrs.isMask = false → node.fallbackSlot? = some prop →
          exec (drawNode ctx i place) s = (.ok r, t) →
            r.KeepsApart (.falsy, prop) node.params.conditions := by
  intro h
  obtain ⟨node, found, hkind, hmask, hfallback⟩ : ∃ node, dotsUnlessEmpty.forest.get? 2 = some node ∧
      node.kind ≠ .text ∧ node.attrs.isMask = false ∧ node.fallbackSlot? = some "label" :=
    ⟨_, rfl, by decide, by decide, by decide +kernel⟩
  have hshows := showsSlotIn_title
  rcases hr : (exec (drawNode dotsUnlessEmpty 2 {}) (.start dotsUnlessEmpty "Title", {})).1 with e | r
    <;> rw [hr] at hshows
  · cases hshows
  · exact Rendered.not_keepsApart_of_showsSlotIn hshows
      (h dotsUnlessEmpty rfl 2 node {} r _ _ "label" found hkind hmask hfallback (Prod.ext hr rfl))

end DesignCompiler

import DesignCompiler.Proofs.Calls
import DesignCompiler.Proofs.Guards

namespace DesignCompiler

open Step

variable {ctx : Context} {nested : Option (Registering Component)}

namespace Fragment

def displays : Fragment → Bool
  | .guard .. | .guardEnd => false
  | _ => true

def isVector : Fragment → Bool
  | .drawing .. | .picture .. => true
  | _ => false

theorem displays_of_isVector {f : Fragment} (h : f.isVector) : f.displays := by
  cases f with
  | drawing | picture => rfl
  | _ => cases h

theorem displays_of_isWritten {f : Fragment} (h : f.isWritten) : f.displays := by
  cases f with
  | span | lineBreak | blankLine | input => rfl
  | _ => cases h

end Fragment

def Node.slot? (node : Node) : Option String :=
  if node.params.contains "contentIfEmpty" then none else Params.value? "content" node.params

def Node.fallbackSlot? (node : Node) : Option String :=
  if node.params.contains "contentIfEmpty" then Params.value? "content" node.params else none

namespace Context

/-- Whether the children of a node are left out. Only inside of another component is a node shown as a
component of its own. -/
def replaces (ctx : Context) (inside : Bool) (node : Node) : Bool :=
  (inside && node.attrs.isComponentRoot) || node.attrs.isMask || (ctx.vector? node).isSome
    || node.slot?.isSome

inductive Places (ctx : Context) (inside : Bool) (node : Node) : List Fragment → Prop
  | slot {prop : String} (hslot : node.slot? = some prop) : Places ctx inside node [.slot prop]
  | vector {drawn : List Fragment} (hslot : node.slot? = none) (hvector : (ctx.vector? node).isSome)
      (hone : drawn.length ≤ 1) (hdrawn : ∀ f ∈ drawn, f.isVector) : Places ctx inside node drawn
  | mask (hslot : node.slot? = none) (hmask : node.attrs.isMask) : Places ctx inside node []
  | component (hslot : node.slot? = none) (hvector : ctx.vector? node = none)
      (hmask : node.attrs.isMask = false) (hroot : node.attrs.isComponentRoot)
      (hinside : inside) : Places ctx inside node [.component (ctx.nameOf node) node.attrs.id]
  | children (hslot : node.slot? = none) (hvector : ctx.vector? node = none)
      (hmask : node.attrs.isMask = false) (hroot : (inside && node.attrs.isComponentRoot) = false) :
      Places ctx inside node []

end Context

/-- The fragments of a visit to a node that show something, and whether the children are left out. -/
structure Visit.Displays (node : Node) (cleared : Bool) (shown : List Fragment) (v : Visit) : Prop where
  node_eq : v.node = node
  cleared_eq : v.cleared = cleared
  prelude_eq : v.prelude.filter Fragment.displays = []
  content_eq : v.content.filter Fragment.displays = shown

namespace Visit.Displays

variable {node : Node} {cleared : Bool} {shown : List Fragment} {v : Visit} {w : Work}

theorem same (h : Displays node cleared shown v) {v' : Visit} (hs : Same v v') :
    Displays node cleared shown v' := by
  refine ⟨hs.node_eq.trans h.node_eq, hs.cleared_eq.trans h.cleared_eq, ?_, ?_⟩
  · rw [hs.prelude_eq, h.prelude_eq]
  · rw [hs.content_eq, h.content_eq]

theorem start (node : Node) (place : Place) : Displays node false [] (.start node place) := by
  have hv : Displays node false [] { node, place } := ⟨rfl, rfl, rfl, rfl⟩
  unfold Visit.start
  dsimp only
  split
  · exact hv.same ((Same.setMiddle ..).trans (Same.setMiddle ..))
  · exact hv

theorem clear (h : Displays node cleared shown v) : Displays node true [] v.clear :=
  ⟨h.node_eq, rfl, h.prelude_eq, rfl⟩

theorem addContent (h : Displays node cleared shown v) {f : Fragment} (hf : f.displays) :
    Displays node cleared (shown ++ [f]) (v.addContent f) := by
  refine ⟨h.node_eq, h.cleared_eq, h.prelude_eq, ?_⟩
  have hlast : [f].filter Fragment.displays = [f] := by simp [hf]
  rw [Visit.addContent, List.filter_append, h.content_eq, hlast]

theorem guard (h : Displays node cleared shown v) (g : Guard) (prop : String) :
    Displays node cleared shown ((v.addPrelude (.guard g prop)).addContent .guardEnd) := by
  refine ⟨h.node_eq, h.cleared_eq, ?_, ?_⟩
  · simpa [Visit.addPrelude, Visit.addContent, Fragment.displays] using h.prelude_eq
  · simpa [Visit.addPrelude, Visit.addContent, Fragment.displays] using h.content_eq

theorem drawNested (h : Displays node cleared shown w.visit) {r s : Registry} {w' : Work}
    (hd : exec (drawNested ctx nested) (w, r) = (.ok (), (w', s))) :
    Displays node (cleared || (nested.isSome && node.attrs.isComponentRoot))
      (if nested.isSome && node.attrs.isComponentRoot then
        [.component (ctx.nameOf node) node.attrs.id] else shown) w'.visit := by
  cases nested with
  | none =>
      rw [exec_drawNested_none] at hd
      cases hd
      simpa using h
  | some build =>
      rw [exec_drawNested_some, h.node_eq] at hd
      rw [Option.isSome_some, Bool.true_and]
      split at hd <;> rename_i hroot
      · rcases hb : exec build r with ⟨_ | c, t⟩ <;> rw [hb] at hd <;> cases hd
        have hc := h.clear.addContent (f := .component (ctx.nameOf node) node.attrs.id) rfl
        rw [hroot, Bool.or_true, if_pos rfl]
        rw [← h.node_eq] at hc ⊢
        exact hc.same ⟨rfl, rfl, rfl, rfl, rfl⟩
      · cases hd
        rw [Bool.eq_false_iff.2 hroot, Bool.or_false, if_neg (by decide)]
        unfold Work.addDescription
        split <;> exact h

theorem hideMask (h : Displays node cleared shown v) :
    Displays node (cleared || node.attrs.isMask) (if node.attrs.isMask then [] else shown)
      v.hideMask := by
  rw [Visit.hideMask, h.node_eq]
  by_cases hmask : node.attrs.isMask
  · simpa [hmask] using h.clear
  · simpa [hmask] using h

theorem drawVector_of_none (h : Displays node cleared shown w.visit) {w' : Work}
    (hv : ctx.vector? node = none) (hd : w.drawVector ctx = (.ok (), w')) :
    Displays node cleared shown w'.visit := by
  rcases Work.drawVector_cases hd with ⟨-, rfl⟩ | ⟨markup, hsome, -⟩
  · exact h
  · rw [h.node_eq, hv] at hsome
    cases hsome

theorem drawVector_of_isSome (h : Displays node cleared shown w.visit) {w' : Work}
    (hv : (ctx.vector? node).isSome) (hd : w.drawVector ctx = (.ok (), w')) :
    ∃ drawn : List Fragment, drawn.length ≤ 1 ∧ (∀ f ∈ drawn, f.isVector) ∧
      Displays node true drawn w'.visit := by
  have hone : ∀ f : Fragment, f.isVector → ∃ drawn : List Fragment, drawn.length ≤ 1 ∧
      (∀ f ∈ drawn, f.isVector) ∧
        Displays node true drawn (w.stretch.editVisit fun v => v.addContent f).visit := by
    intro f hf
    refine ⟨[f], by simp, by simpa using hf, ?_⟩
    rw [Work.editVisit, w.stretch_visit]
    exact h.clear.addContent (Fragment.displays_of_isVector hf)
  rcases Work.drawVector_cases hd with ⟨hnone, -⟩ | ⟨markup, -, rfl | ⟨url, rfl⟩ | ⟨drawn, -, rfl⟩⟩
  · rw [h.node_eq] at hnone
    simp [hnone] at hv
  · exact ⟨[], by simp, by simp, w.stretch_visit ▸ h.clear⟩
  · exact hone _ rfl
  · exact hone _ rfl

theorem drawSlot (h : Displays node cleared shown w.visit) :
    Displays node (cleared || node.slot?.isSome) (node.slot?.elim shown fun prop => [.slot prop])
      w.drawSlot.visit := by
  rw [Work.drawSlot, Node.slot?, Visit.params, h.node_eq]
  cases Params.value? "content" node.params with
  | none => simpa using h
  | some prop =>
      cases node.params.contains "contentIfEmpty" with
      | false =>
          have hc := h.clear.addContent (f := .slot prop) rfl
          simpa [Work.declare, Work.editVisit, Work.editScope] using hc
      | true => simpa using h

theorem drawSlotFallback (h : Displays node cleared shown w.visit) :
    Displays node cleared (shown ++ (node.fallbackSlot?.map Fragment.slot).toList)
      w.drawSlotFallback.visit := by
  rw [Work.drawSlotFallback, Node.fallbackSlot?, Visit.params, h.node_eq]
  cases Params.value? "content" node.params with
  | none => simpa using h
  | some prop =>
      cases node.params.contains "contentIfEmpty" with
      | false => simpa using h
      | true => exact (h.guard .falsy prop).addContent rfl

theorem drawGuard (h : Displays node cleared shown w.visit) (key : String) (g : Guard) :
    Displays node cleared shown (w.drawGuard key g).visit := by
  unfold Work.drawGuard
  split
  · exact h.guard g _
  · exact h

theorem drawPieces (h : Displays node cleared shown w.visit) (o : RunOptions) (styles : RunStyles)
    (pieces : List Text.Piece) :
    ∃ written : List Fragment, (∀ f ∈ written, f.isWritten) ∧ written.length = pieces.length ∧
      Displays node cleared (shown ++ written) (w.drawPieces o styles pieces).visit := by
  have hpiece : ∀ {shown : List Fragment} {w : Work}, Displays node cleared shown w.visit →
      ∀ (styles : RunStyles) (piece : Text.Piece), ∃ f : Fragment, f.isWritten ∧
        Displays node cleared (shown ++ [f]) (w.drawPiece o styles piece).1.visit := by
    intro shown w h styles piece
    have hadd : ∀ {f : Fragment}, f.isWritten → ∀ middle : StyleMap,
        Displays node cleared (shown ++ [f]) { w.visit.addContent f with middle } := by
      intro f hf middle
      have hc := h.addContent (Fragment.displays_of_isWritten hf)
      exact hc.same ⟨rfl, rfl, rfl, rfl, rfl⟩
    cases piece with
    | run text style index key => exact ⟨.span _ key text, rfl, hadd rfl _⟩
    | lineBreak key => exact ⟨.lineBreak _ key, rfl, hadd rfl _⟩
    | blankLine key => exact ⟨.blankLine _ key, rfl, hadd rfl _⟩
  induction pieces generalizing w shown styles with
  | nil => exact ⟨[], by simp, rfl, by rwa [List.append_nil]⟩
  | cons piece pieces ih =>
      obtain ⟨f, hf, hdraw⟩ := hpiece h styles piece
      obtain ⟨written, hwritten, hlength, hrest⟩ := ih hdraw (w.drawPiece o styles piece).2
      refine ⟨f :: written, ?_, by simp [hlength], ?_⟩
      · intro g hg
        rcases List.mem_cons.1 hg with rfl | hg
        · exact hf
        · exact hwritten g hg
      · rw [List.append_assoc] at hrest
        exact hrest

theorem drawInput (h : Displays node cleared shown w.visit) :
    ∃ f : Fragment, f.isWritten ∧ Displays node cleared (shown ++ [f]) w.drawInput.visit := by
  have hadd : ∀ head type placeholder properties, Displays node cleared
      (shown ++ [.input head type placeholder])
      { w.visit.addContent (.input head type placeholder) with properties } := by
    intro head type placeholder properties
    have hc := h.addContent (f := .input head type placeholder) rfl
    exact hc.same ⟨rfl, rfl, rfl, rfl, rfl⟩
  exact ⟨_, rfl, hadd ..⟩

theorem drawText (h : Displays node cleared shown w.visit) :
    ∃ written : List Fragment, (∀ f ∈ written, f.isWritten) ∧ (written = [] ↔ ¬node.WritesText) ∧
      Displays node cleared (shown ++ written) w.drawText.visit := by
  have hbox : ∀ middle, Displays node cleared shown { w.visit with middle } :=
    fun _ => h.same ⟨rfl, rfl, rfl, rfl, rfl⟩
  unfold Work.drawText Node.WritesText
  dsimp only
  rw [h.node_eq]
  by_cases hkind : node.kind = .text
  · rw [if_neg (by simpa using hkind)]
    by_cases hinput : node.params.contains "input"
    · rw [if_pos hinput]
      obtain ⟨f, hf, hdraw⟩ := drawInput (w := w.editVisit fun v => { v with middle := _ }) (hbox _)
      exact ⟨[f], by simpa using hf, by simp [hkind, hinput], hdraw⟩
    · rw [if_neg hinput]
      obtain ⟨written, hwritten, hlength, hrest⟩ :=
        drawPieces (w := w.editVisit fun v => { v with middle := _ }) (hbox _) (.ofNode node) []
          (Text.runs (node.attrs.characters.getD "") node.attrs.styleOverrides)
      refine ⟨written, hwritten, ?_, hrest⟩
      rw [← List.length_eq_zero_iff, hlength, List.length_eq_zero_iff, Text.runs_eq_nil]
      simp [hkind, hinput]
  · rw [if_pos hkind]
    exact ⟨[], by simp, by simp [hkind], by simpa using h⟩

theorem afterVector (h : Displays node cleared shown w.visit) :
    ∃ written : List Fragment, (∀ f ∈ written, f.isWritten) ∧ (written = [] ↔ ¬node.WritesText) ∧
      Displays node (cleared || node.slot?.isSome)
        ((node.slot?.elim shown fun prop => [.slot prop]) ++
          (node.fallbackSlot?.map Fragment.slot).toList ++ written) w.afterVector.visit := by
  have hlast : ∀ {cleared : Bool} {shown : List Fragment} (u : Work),
      Displays node cleared shown u.visit →
      ∃ written : List Fragment, (∀ f ∈ written, f.isWritten) ∧ (written = [] ↔ ¬node.WritesText) ∧
        Displays node cleared (shown ++ written)
          ((u.editVisit Visit.setId).editVisit Visit.addNamedClass).drawText.visit := by
    intro cleared shown u hu
    have hid := hu.same (Same.setId u.visit)
    have hclass : Displays node cleared shown
        ((u.editVisit Visit.setId).editVisit Visit.addNamedClass).visit :=
      hid.same (Same.addNamedClass u.visit.setId)
    exact hclass.drawText
  have hguards : Displays node _ _ w.drawParameters.visit :=
    (h.drawSlot.drawSlotFallback.drawGuard "ifTrue" .truthy).drawGuard "ifFalse" .falsy
  exact hlast _ (hguards.same (Same.bindClick w.drawParameters))

end Visit.Displays

theorem exists_places_of_drawNested {node : Node} {w u x : Work} {r s : Registry}
    (h : w.visit.Displays node false []) (hn : exec (drawNested ctx nested) (w, r) = (.ok (), (u, s)))
    (hv : (u.editVisit Visit.hideMask).drawVector ctx = (.ok (), x)) :
    ∃ placed : List Fragment, (node.slot? = none → ctx.Places nested.isSome node placed) ∧
      x.visit.Displays node
        ((nested.isSome && node.attrs.isComponentRoot) || node.attrs.isMask || (ctx.vector? node).isSome)
        placed := by
  have hmask := (h.drawNested hn).hideMask
  by_cases hvector : (ctx.vector? node).isSome
  · -- A vector is drawn over whatever the plugins before it have placed.
    obtain ⟨drawn, hone, hdrawn, hd⟩ :=
      Visit.Displays.drawVector_of_isSome (w := u.editVisit Visit.hideMask) hmask hvector hv
    refine ⟨drawn, fun hslot => .vector hslot hvector hone hdrawn, ?_⟩
    simpa [hvector] using hd
  · have hnone : ctx.vector? node = none := by simpa using hvector
    have hd := Visit.Displays.drawVector_of_none (w := u.editVisit Visit.hideMask) hmask hnone hv
    rw [hnone, Option.isSome_none, Bool.or_false]
    refine ⟨_, ?_, hd⟩
    intro hslot
    by_cases hm : node.attrs.isMask
    · rw [if_pos hm]
      exact .mask hslot hm
    · rw [if_neg hm]
      have hplain : node.attrs.isMask = false := by simpa using hm
      split <;> rename_i hroot
      · obtain ⟨hinside, hroot⟩ := Bool.and_eq_true_iff.1 hroot
        exact .component hslot hnone hplain hroot hinside
      · exact .children hslot hnone hplain (Bool.eq_false_iff.2 hroot)

theorem exists_places_of_draw (hp : ctx.plugins = {}) {node : Node} {place : Place} {v : Visit}
    {s t : Scope × Registry}
    (h : exec ((Visit.start node place).draw ctx nested) s = (.ok v, t)) :
    ∃ placed written : List Fragment, ctx.Places nested.isSome node placed ∧
      (∀ f ∈ written, f.isWritten) ∧ (written = [] ↔ ¬node.WritesText) ∧
      v.Displays node (ctx.replaces nested.isSome node)
        (placed ++ (node.fallbackSlot?.map Fragment.slot).toList ++ written) := by
  have hstart : (Work.beforeNested ctx ⟨.start node place, s.1⟩).visit.Displays node false [] :=
    ((Visit.Displays.start node place).same (Visit.Same.applyStyles ⟨_, s.1⟩)).same
      (Visit.Same.applyNameStyles _)
  rw [exec_draw_default hp] at h
  rcases hn : exec (drawNested ctx nested) (Work.beforeNested ctx ⟨.start node place, s.1⟩, s.2)
    with ⟨e | u, w, r⟩ <;> rw [hn] at h
  · cases h
  · dsimp only at h
    rcases hv : (w.editVisit Visit.hideMask).drawVector ctx with ⟨e | u, x⟩ <;> rw [hv] at h
    · cases h
    · obtain ⟨placed, hplaces, hx⟩ := exists_places_of_drawNested hstart hn hv
      obtain ⟨written, hwritten, hnone, hafter⟩ := hx.afterVector
      rw [← Except.ok.inj (Prod.mk.inj h).1, Context.replaces]
      refine ⟨_, written, ?_, hwritten, hnone, hafter⟩
      cases hs : node.slot? with
      | none => exact hplaces hs
      | some prop => exact .slot hs

def Rendered.displayed (r : Rendered) : List Fragment :=
  (r.prelude ++ r.content).filter Fragment.displays

theorem isSome_nestedBuild (i : Nat) (place : Place) :
    (nestedBuild ctx i place).isSome = place.parent.isSome := by
  rw [nestedBuild, Option.isSome_map]

theorem exists_places_of_enterNode (hp : ctx.plugins = {}) {i : Nat} {node : Node} {place : Place}
    {cleared : Bool} {r : Rendered} {s t : Scope × Registry}
    (h : exec (enterNode ctx i node place) s = (.ok (cleared, r), t)) :
    cleared = ctx.replaces place.parent.isSome node ∧
      (r.node = node.index ∧ r.middle.id = node.attrs.id) ∧ r.children = [] ∧
      ∃ placed written : List Fragment, ctx.Places place.parent.isSome node placed ∧
        (∀ f ∈ written, f.isWritten) ∧ (written = [] ↔ ¬node.WritesText) ∧
        r.displayed = placed ++ (node.fallbackSlot?.map Fragment.slot).toList ++ written := by
  obtain ⟨v, u, hv, h⟩ := exec_bind_eq_ok.1 h
  obtain ⟨placed, written, hplaces, hwritten, hnone, hdraw⟩ := exists_places_of_draw hp hv
  rw [isSome_nestedBuild] at hplaces hdraw
  have hfinish := hdraw.same (Visit.Same.finish v)
  obtain ⟨r', u', hr, h⟩ := exec_bind_eq_ok.1 h
  rw [exec_pure] at h
  cases h
  cases hr
  have hindex : v.finish.node.index = node.index := by rw [hfinish.node_eq]
  have hid : v.finish.node.attrs.id = node.attrs.id := by rw [hfinish.node_eq]
  refine ⟨hfinish.cleared_eq, ⟨hindex, hid⟩, rfl, placed, written, hplaces, hwritten, hnone, ?_⟩
  change (v.finish.prelude ++ v.finish.content).filter Fragment.displays = _
  rw [List.filter_append, hfinish.prelude_eq, hfinish.content_eq, List.nil_append]

theorem exists_places_of_drawNode (hp : ctx.plugins = {}) {i : Nat} {node : Node} {place : Place}
    {r : Rendered} {s t : Scope × Registry} (found : ctx.forest.get? i = some node)
    (h : exec (drawNode ctx i place) s = (.ok r, t)) :
    (ctx.replaces place.parent.isSome node →
      r.children = [] ∧ ∀ e, ¬Draw.Draws ctx ⟨i, place, s.1, s.2⟩ e) ∧
      ∃ placed written : List Fragment, ctx.Places place.parent.isSome node placed ∧
        (∀ f ∈ written, f.isWritten) ∧ (written = [] ↔ ¬node.WritesText) ∧
        r.displayed = placed ++ (node.fallbackSlot?.map Fragment.slot).toList ++ written := by
  obtain ⟨node', rendered, u, found', hcases⟩ := exec_drawNode_eq_ok h
  obtain rfl := Option.some.inj (found.symm.trans found')
  rcases hcases with ⟨entered, rfl, -⟩ | ⟨entered, children, -, rfl⟩
  · obtain ⟨-, -, hchildren, hplaces⟩ := exists_places_of_enterNode hp entered
    refine ⟨fun _ => ⟨hchildren, ?_⟩, hplaces⟩
    rintro _ ⟨found', entered', -, -⟩
    obtain rfl := Option.some.inj (found.symm.trans found')
    rw [entered] at entered'
    cases entered'
  · obtain ⟨hcleared, -, -, hplaces⟩ := exists_places_of_enterNode hp entered
    exact ⟨fun hr => absurd hr (by simp [← hcleared]), hplaces⟩

end DesignCompiler

import DesignCompiler.Proofs.Blocks
import DesignCompiler.Proofs.Pipeline
import DesignCompiler.Tree.Normalize

namespace DesignCompiler

open Step

variable {ctx : Context} {nested : Option (Registering Component)}

namespace Text

theorem runsFrom_eq_nil {offset : Nat} {afterFeed : Bool} {styles : List Nat} {run : OpenRun}
    {chars : List Char} :
    runsFrom offset afterFeed styles run chars = [] ↔ chars = [] ∧ run.chars = [] := by
  induction chars generalizing offset afterFeed styles run with
  | nil =>
      rw [runsFrom, OpenRun.close]
      cases run.chars <;> simp
  | cons c chars ih =>
      rw [runsFrom]
      dsimp only
      split
      · split <;> simp
      · split
        · rw [ih]
          simp
        · simp [ih]

theorem runs_eq_nil {text : String} {styles : List Nat} : runs text styles = [] ↔ text = "" := by
  rw [runs, runsFrom_eq_nil, String.toList_eq_nil_iff]
  simp

end Text

namespace Params

def block? (key : String) (g : Guard) (params : Params) : Option Block :=
  (Params.value? key params).map fun prop => (g, prop)

def conditions (params : Params) : List Block :=
  (params.block? "ifTrue" .truthy).toList ++ (params.block? "ifFalse" .falsy).toList

def fallback (params : Params) : List Block :=
  if params.contains "contentIfEmpty" then (params.block? "content" .falsy).toList else []

end Params

def Node.WritesText (node : Node) : Prop :=
  node.kind = .text ∧ (node.params.contains "input" ∨ node.attrs.characters.getD "" ≠ "")

/-- The fragments of a visit to a node stand in a frame. -/
structure Visit.IsFramed (node : Node) (blocks : List Block) (written : List Fragment) (v : Visit) :
    Prop where
  node_eq : v.node = node
  framed : Framed blocks written v.prelude v.content

namespace Visit.IsFramed

variable {node : Node} {blocks : List Block} {written : List Fragment} {v : Visit} {w : Work}

theorem same (h : IsFramed node blocks written v) {v' : Visit} (hs : Same v v') :
    IsFramed node blocks written v' := by
  refine ⟨hs.node_eq.trans h.node_eq, ?_⟩
  rw [hs.prelude_eq, hs.content_eq]
  exact h.framed

theorem start (node : Node) (place : Place) : IsFramed node [] [] (.start node place) := by
  have hv : IsFramed node [] [] { node, place } := ⟨rfl, .placed (by simp)⟩
  unfold Visit.start
  dsimp only
  split
  · exact hv.same ((Same.setMiddle ..).trans (Same.setMiddle ..))
  · exact hv

theorem clear (h : IsFramed node [] [] v) : IsFramed node [] [] v.clear :=
  ⟨h.node_eq, h.framed.prelude_eq ▸ .placed (by simp [Visit.clear])⟩

theorem clear_addContent (h : IsFramed node [] [] v) {f : Fragment} (hf : f.isPlaced) :
    IsFramed node [] [] (v.clear.addContent f) := by
  refine ⟨h.node_eq, ?_⟩
  have hprelude : v.prelude = [] := h.framed.prelude_eq
  change Framed [] [] v.prelude [f]
  rw [hprelude]
  exact .placed fun g hg => List.mem_singleton.1 hg ▸ hf

theorem hideMask (h : IsFramed node [] [] v) : IsFramed node [] [] v.hideMask := by
  unfold Visit.hideMask
  split
  · exact h.clear
  · exact h

theorem drawSlot (h : IsFramed node [] [] w.visit) : IsFramed node [] [] w.drawSlot.visit := by
  unfold Work.drawSlot
  split
  · split
    · exact h
    · exact h.clear_addContent rfl
  · exact h

theorem guard (h : IsFramed node blocks [] v) (g : Guard) (prop : String) :
    IsFramed node (blocks ++ [(g, prop)]) [] ((v.addPrelude (.guard g prop)).addContent .guardEnd) :=
  ⟨h.node_eq, h.framed.guard (g, prop)⟩

theorem drawSlotFallback (h : IsFramed node [] [] w.visit) :
    IsFramed node node.params.fallback [] w.drawSlotFallback.visit := by
  rw [Work.drawSlotFallback, Params.fallback, Params.block?, Visit.params, h.node_eq]
  cases Params.value? "content" node.params with
  | none => simpa using h
  | some prop =>
      cases node.params.contains "contentIfEmpty" with
      | false => exact h
      | true => exact ⟨h.node_eq, (h.guard .falsy prop).framed.slot prop⟩

theorem drawGuard (h : IsFramed node blocks [] w.visit) (key : String) (g : Guard) :
    IsFramed node (blocks ++ (node.params.block? key g).toList) [] (w.drawGuard key g).visit := by
  rw [Work.drawGuard, Params.block?, Visit.params, h.node_eq]
  cases Params.value? key node.params with
  | none => simpa using h
  | some prop => exact h.guard g prop

theorem drawParameters (h : IsFramed node [] [] w.visit) :
    IsFramed node (node.params.fallback ++ node.params.conditions) [] w.drawParameters.visit := by
  rw [Params.conditions, ← List.append_assoc]
  exact (h.drawSlot.drawSlotFallback.drawGuard "ifTrue" .truthy).drawGuard "ifFalse" .falsy

theorem drawNested (h : IsFramed node [] [] w.visit) {r s : Registry} {w' : Work}
    (hd : exec (drawNested ctx nested) (w, r) = (.ok (), (w', s))) : IsFramed node [] [] w'.visit := by
  cases nested with
  | none =>
      rw [exec_drawNested_none] at hd
      cases hd
      exact h
  | some build =>
      rw [exec_drawNested_some] at hd
      split at hd
      · rcases hb : exec build r with ⟨_ | c, t⟩ <;> rw [hb] at hd <;> cases hd
        have hc := h.clear_addContent (f := .component (ctx.nameOf w.visit.node) w.visit.sceneId) rfl
        exact ⟨hc.node_eq, hc.framed⟩
      · cases hd
        unfold Work.addDescription
        split <;> exact h

theorem drawVector (h : IsFramed node [] [] w.visit) {w' : Work}
    (hd : w.drawVector ctx = (.ok (), w')) : IsFramed node [] [] w'.visit := by
  have hplace : ∀ f : Fragment, f.isPlaced →
      IsFramed node [] [] (w.stretch.editVisit fun v => v.addContent f).visit := by
    intro f hf
    rw [Work.editVisit, w.stretch_visit]
    exact h.clear_addContent hf
  rcases Work.drawVector_cases hd with ⟨-, rfl⟩ | ⟨markup, -, rfl | ⟨url, rfl⟩ | ⟨drawn, -, rfl⟩⟩
  · exact h
  · rw [w.stretch_visit]
    exact h.clear
  · exact hplace _ rfl
  · exact hplace _ rfl

theorem drawInput (h : IsFramed node blocks written w.visit) :
    ∃ f, IsFramed node blocks (written ++ [f]) w.drawInput.visit :=
  ⟨.input _ _ _, h.node_eq, h.framed.write rfl⟩

theorem drawPiece (h : IsFramed node blocks written w.visit) (o : RunOptions) (styles : RunStyles)
    (piece : Text.Piece) :
    ∃ f, IsFramed node blocks (written ++ [f]) (w.drawPiece o styles piece).1.visit := by
  cases piece with
  | run text style index key => exact ⟨.span _ key text, h.node_eq, h.framed.write rfl⟩
  | lineBreak key => exact ⟨.lineBreak _ key, h.node_eq, h.framed.write rfl⟩
  | blankLine key => exact ⟨.blankLine _ key, h.node_eq, h.framed.write rfl⟩

theorem drawPieces (h : IsFramed node blocks written w.visit) (o : RunOptions) (styles : RunStyles)
    (pieces : List Text.Piece) :
    ∃ more, IsFramed node blocks (written ++ more) (w.drawPieces o styles pieces).visit ∧
      more.length = pieces.length := by
  induction pieces generalizing w written styles with
  | nil => exact ⟨[], by rwa [List.append_nil], rfl⟩
  | cons piece pieces ih =>
      obtain ⟨f, hf⟩ := h.drawPiece o styles piece
      obtain ⟨more, hmore, hlength⟩ := ih hf (w.drawPiece o styles piece).2
      refine ⟨f :: more, ?_, ?_⟩
      · rw [List.append_assoc] at hmore
        exact hmore
      · rw [List.length_cons, List.length_cons, hlength]

/-- Text is written after all blocks are closed. -/
theorem drawText (h : IsFramed node blocks [] w.visit) :
    ∃ written, IsFramed node blocks written w.drawText.visit ∧ (written = [] ↔ ¬node.WritesText) := by
  have hbox : ∀ middle, IsFramed node blocks [] { w.visit with middle } :=
    fun middle => ⟨h.node_eq, h.framed⟩
  unfold Work.drawText Node.WritesText
  dsimp only
  rw [h.node_eq]
  split
  · next hkind => exact ⟨[], h, by simp [hkind]⟩
  · next hkind =>
    split
    · next hinput =>
      obtain ⟨f, hf⟩ := drawInput (w := w.editVisit fun v => { v with middle := _ }) (hbox _)
      exact ⟨[f], hf, by simp [not_not.1 hkind, hinput]⟩
    · next hinput =>
      obtain ⟨more, hmore, hlength⟩ :=
        drawPieces (w := w.editVisit fun v => { v with middle := _ }) (hbox _) (.ofNode node) []
          (Text.runs (node.attrs.characters.getD "") node.attrs.styleOverrides)
      refine ⟨more, hmore, ?_⟩
      rw [← List.length_eq_zero_iff, hlength, List.length_eq_zero_iff, Text.runs_eq_nil]
      simp [not_not.1 hkind, hinput]

theorem afterVector (h : IsFramed node [] [] w.visit) :
    ∃ written, IsFramed node (node.params.fallback ++ node.params.conditions) written
      w.afterVector.visit ∧ (written = [] ↔ ¬node.WritesText) := by
  have hlast : ∀ u : Work,
      IsFramed node (node.params.fallback ++ node.params.conditions) [] u.visit →
      ∃ written, IsFramed node (node.params.fallback ++ node.params.conditions) written
        ((u.editVisit Visit.setId).editVisit Visit.addNamedClass).drawText.visit ∧
          (written = [] ↔ ¬node.WritesText) := by
    intro u hu
    have hid := hu.same (Same.setId u.visit)
    have hclass : IsFramed node (node.params.fallback ++ node.params.conditions) []
        ((u.editVisit Visit.setId).editVisit Visit.addNamedClass).visit :=
      hid.same (Same.addNamedClass u.visit.setId)
    exact hclass.drawText
  exact hlast _ (h.drawParameters.same (Same.bindClick w.drawParameters))

end Visit.IsFramed

theorem exists_framed_of_draw (hp : ctx.plugins = {}) {node : Node} {place : Place} {v : Visit}
    {s t : Scope × Registry}
    (h : exec ((Visit.start node place).draw ctx nested) s = (.ok v, t)) :
    ∃ written, v.IsFramed node (node.params.fallback ++ node.params.conditions) written ∧
      (written = [] ↔ ¬node.WritesText) := by
  have hstart : (Work.beforeNested ctx ⟨.start node place, s.1⟩).visit.IsFramed node [] [] :=
    ((Visit.IsFramed.start node place).same (Visit.Same.applyStyles ⟨_, s.1⟩)).same
      (Visit.Same.applyNameStyles _)
  rw [exec_draw_default hp] at h
  rcases hn : exec (drawNested ctx nested) (Work.beforeNested ctx ⟨.start node place, s.1⟩, s.2)
    with ⟨e | u, w, r⟩ <;> rw [hn] at h
  · cases h
  · have hw := (hstart.drawNested hn).hideMask
    dsimp only at h
    rcases hv : (w.editVisit Visit.hideMask).drawVector ctx with ⟨e | u, w'⟩ <;> rw [hv] at h
    · cases h
    · have hafter := (Visit.IsFramed.drawVector hw hv).afterVector
      rw [← Except.ok.inj (Prod.mk.inj h).1]
      exact hafter

theorem exists_framed_of_enterNode (hp : ctx.plugins = {}) {i : Nat} {node : Node} {place : Place}
    {cleared : Bool} {r : Rendered} {s t : Scope × Registry}
    (h : exec (enterNode ctx i node place) s = (.ok (cleared, r), t)) :
    r.children = [] ∧ ∃ written,
      Framed (node.params.fallback ++ node.params.conditions) written r.prelude r.content ∧
        (written = [] ↔ ¬node.WritesText) := by
  obtain ⟨v, u, hv, h⟩ := exec_bind_eq_ok.1 h
  obtain ⟨written, hframed, hwritten⟩ := exists_framed_of_draw hp hv
  have hfinish := (hframed.same (Visit.Same.finish v)).framed
  obtain ⟨r', u', hr, h⟩ := exec_bind_eq_ok.1 h
  rw [exec_pure] at h
  cases h
  cases hr
  exact ⟨rfl, written, hfinish, hwritten⟩

theorem exists_framed_of_drawNode (hp : ctx.plugins = {}) {i : Nat} {node : Node} {place : Place}
    {r : Rendered} {s t : Scope × Registry} (found : ctx.forest.get? i = some node)
    (h : exec (drawNode ctx i place) s = (.ok r, t)) :
    (∃ written, Framed (node.params.fallback ++ node.params.conditions) written r.prelude r.content ∧
        (written = [] ↔ ¬node.WritesText)) ∧
      ∀ c ∈ r.children, ∃ turn ∈ (ctx.forest.buckets i).turns, ∃ u v,
        exec (drawNode ctx turn.node (turn.place ctx node)) u = (.ok c, v) := by
  rw [exec_drawNode_of_some found] at h
  rcases he : exec (enterNode ctx i node place) s with ⟨e | ⟨cleared, r'⟩, u⟩ <;> rw [he] at h
  · cases h
  · obtain ⟨hchildren, hframed⟩ := exists_framed_of_enterNode hp he
    cases cleared with
    | true =>
        cases h
        refine ⟨hframed, ?_⟩
        intro c hc
        rw [hchildren] at hc
        cases hc
    | false =>
        dsimp only at h
        rcases ht : exec (drawTurns ctx node (ctx.forest.buckets i).turns) u with ⟨e | children, u'⟩
          <;> rw [ht] at h
        · cases h
        · cases h
          exact ⟨hframed, fun c hc => exists_of_mem_of_exec_mapM ht hc⟩

theorem balanced_of_drawNode (hp : ctx.plugins = {}) {i : Nat} {place : Place} {r : Rendered}
    {s t : Scope × Registry} (h : exec (drawNode ctx i place) s = (.ok r, t)) :
    Balanced r.fragments := by
  -- Children come after their node, which leaves fewer nodes to come.
  induction hk : ctx.forest.size - i using Nat.strongRecOn
    generalizing i place r s t with
  | ind k ih =>
      rcases found : ctx.forest.get? i with _ | node
      · rw [drawNode_of_none found, exec_throw] at h
        cases h
      · obtain ⟨⟨written, hframed, -⟩, hchildren⟩ := exists_framed_of_drawNode hp found h
        refine Rendered.balanced_of_framed hframed ?_
        intro c hc
        obtain ⟨turn, hturn, u, v, hdraw⟩ := hchildren c hc
        have hlt := ctx.forest.lt_of_mem_turns hturn
        have hi : i < ctx.forest.size := (Array.getElem?_eq_some_iff.1 found).1
        exact ih _ (by omega) hdraw rfl

/-- The blocks of a drawn node are closed in it. Its conditions stand around each child, nested
component and vector, and around none of its text: all that it shows is guarded just when it has no
condition or no text to write. -/
theorem conditions_guard_all_but_text (hp : ctx.plugins = {}) {i : Nat} {node : Node} {place : Place}
    {r : Rendered} {s t : Scope × Registry} (found : ctx.forest.get? i = some node)
    (h : exec (drawNode ctx i place) s = (.ok r, t)) :
    Balanced r.fragments ∧
      (∀ e ∈ partsAround [] r.parts, e.1.isShown →
        if e.1.isWritten then e.2 = [] else ∀ b ∈ node.params.conditions, e.1.LiesIn e.2 b) ∧
      (r.IsGuarded node.params.conditions ↔ node.params.conditions = [] ∨ ¬node.WritesText) := by
  obtain ⟨⟨written, hframed, hwritten⟩, hchildren⟩ := exists_framed_of_drawNode hp found h
  have hbalanced : ∀ c ∈ r.children, Balanced c.fragments := by
    intro c hc
    obtain ⟨turn, -, u, v, hdraw⟩ := hchildren c hc
    exact balanced_of_drawNode hp hdraw
  have hown : node.params.conditions ⊆ node.params.fallback ++ node.params.conditions :=
    List.subset_append_right ..
  refine ⟨balanced_of_drawNode hp h, ?_, ?_⟩
  · intro e he hs
    rcases Rendered.around_of_framed hframed hbalanced he hs with ⟨f, hf, rfl⟩ | ⟨hw, ha⟩
    · rw [Part.isWritten, if_pos (hframed.isWritten f hf)]
    · rw [hw]
      exact fun b hb => ha b (hown hb)
  · rw [Rendered.isGuarded_of_framed hframed hbalanced hown, hwritten]

def iconAndTitle : Context where
  forest := (NormalizedScene.ofCanvas {}
    { attrs := { id := "0:0", name := "Page", kind := .canvas }
      children :=
        [{ attrs := { id := "1", name := "#Icon??ifTrue=show&vectorImg", kind := .vector } },
          { attrs := { id := "2", name := "#Title??ifTrue=show", kind := .text
                       characters := some "Hi" } }] }).forest
  options := {}
  resources := { vectors := [("1", "<svg/>")], vectorUrls := [("1", "icon.svg")] }
  descriptions := []

theorem isOk_draw_icon :
    (exec (drawNode iconAndTitle 0 {}) (.start iconAndTitle "Icon", {})).1.isOk := by
  decide +kernel

theorem conditions_guard_icon :
    ∃ node r t, iconAndTitle.forest.get? 0 = some node ∧
      exec (drawNode iconAndTitle 0 {}) (.start iconAndTitle "Icon", {}) = (.ok r, t) ∧
      node.params.conditions = [(.truthy, "show")] ∧ r.IsGuarded node.params.conditions := by
  obtain ⟨r, hr⟩ := exists_ok_of_isOk isOk_draw_icon
  obtain ⟨node, found, hkind, hconditions⟩ : ∃ node, iconAndTitle.forest.get? 0 = some node ∧
      node.kind = .vector ∧ node.params.conditions = [(.truthy, "show")] :=
    ⟨_, rfl, by decide, by decide +kernel⟩
  refine ⟨node, r, _, found, Prod.ext hr rfl, hconditions, ?_⟩
  refine (conditions_guard_all_but_text rfl found (Prod.ext hr rfl)).2.2.2 (.inr ?_)
  rintro ⟨htext, -⟩
  rw [hkind] at htext
  cases htext

def Rendered.showsOutside (r : Rendered) : Bool :=
  (partsAround [] r.parts).any fun e => e.1.isShown && e.2.isEmpty

theorem Rendered.not_isGuarded_of_showsOutside {r : Rendered} (h : r.showsOutside) {b : Block}
    {blocks : List Block} : ¬r.IsGuarded (b :: blocks) := by
  intro hr
  obtain ⟨e, he, hs⟩ := List.any_eq_true.1 h
  obtain ⟨hshown, hempty⟩ := Bool.and_eq_true_iff.1 hs
  have hb := (hr e he hshown b List.mem_cons_self).1
  rw [List.isEmpty_iff.1 hempty] at hb
  cases hb

theorem showsOutside_title :
    ((exec (drawNode iconAndTitle 1 {}) (.start iconAndTitle "Title", {})).1.toOption.any
      Rendered.showsOutside) := by
  decide +kernel

/-- The text is shown whatever its condition asks. -/
theorem not_forall_conditions_guard :
    ¬∀ (ctx : Context), ctx.plugins = {} → ∀ (i : Nat) (node : Node) (place : Place) (r : Rendered)
      (s t : Scope × Registry), ctx.forest.get? i = some node →
        exec (drawNode ctx i place) s = (.ok r, t) → r.IsGuarded node.params.conditions := by
  intro h
  obtain ⟨node, found, hconditions⟩ : ∃ node, iconAndTitle.forest.get? 1 = some node ∧
      node.params.conditions = [(.truthy, "show")] := ⟨_, rfl, by decide +kernel⟩
  have houtside := showsOutside_title
  rcases hr : (exec (drawNode iconAndTitle 1 {}) (.start iconAndTitle "Title", {})).1 with e | r
    <;> rw [hr] at houtside
  · cases houtside
  · have hguarded := h iconAndTitle rfl 1 node {} r _ _ found (Prod.ext hr rfl)
    rw [hconditions] at hguarded
    exact Rendered.not_isGuarded_of_showsOutside houtside hguarded

end DesignCompiler

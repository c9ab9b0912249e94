import DesignCompiler.Proofs.Displayed

namespace DesignCompiler

open Step

variable {ctx : Context}

def Node.replacement? (node : Node) : Option (List Fragment) :=
  match node.slot? with
  | some prop => some [.slot prop]
  | none => if node.attrs.isMask ∧ Params.value? "content" node.params = none then some [] else none

theorem Context.Places.of_replacement? {node : Node} {inside : Bool} {placed shown : List Fragment}
    (h : ctx.Places inside node placed) (hs : node.replacement? = some shown) :
    placed = shown ∧ node.fallbackSlot? = none ∧ ctx.replaces inside node := by
  rw [Node.replacement?] at hs
  split at hs
  · next prop hslot =>
    have hfallback : node.fallbackSlot? = none := by
      rw [Node.slot?] at hslot
      rw [Node.fallbackSlot?]
      split at hslot
      · cases hslot
      · next hempty => rw [if_neg hempty]
    refine ⟨?_, hfallback, by simp [replaces, hslot]⟩
    cases hs
    cases h with
    | slot hslot' =>
        rw [hslot] at hslot'
        cases hslot'
        rfl
    | vector hslot' | mask hslot' | component hslot' | children hslot' =>
        rw [hslot] at hslot'
        cases hslot'
  · next hslot =>
    split at hs
    · next hmask =>
      cases hs
      have hvector : ctx.vector? node = none := by simp [vector?, hmask.1]
      refine ⟨?_, by simp [Node.fallbackSlot?, hmask.2], by simp [replaces, hmask.1]⟩
      cases h with
      | slot hslot' =>
          rw [hslot] at hslot'
          cases hslot'
      | vector _ hsome =>
          rw [hvector] at hsome
          cases hsome
      | mask | children => rfl
      | component _ _ hplain =>
          rw [hmask.1] at hplain
          cases hplain
    · cases hs

/-- A slot or a mask leaves nothing of the node but its text: no child is drawn, and the node shows the
property, or nothing, just when it has no text to write. -/
theorem replaced_but_for_text (hp : ctx.plugins = {}) {i : Nat} {node : Node} {place : Place}
    {r : Rendered} {s t : Scope × Registry} (found : ctx.forest.get? i = some node)
    (h : exec (drawNode ctx i place) s = (.ok r, t)) {shown : List Fragment}
    (hs : node.replacement? = some shown) :
    r.children = [] ∧ (∀ e, ¬Draw.Draws ctx ⟨i, place, s.1, s.2⟩ e) ∧
      (∃ written : List Fragment, (∀ f ∈ written, f.isWritten) ∧ r.displayed = shown ++ written) ∧
      (r.displayed = shown ↔ ¬node.WritesText) := by
  obtain ⟨hcleared, placed, written, hplaces, hwritten, hnone, hdisplayed⟩ :=
    exists_places_of_drawNode hp found h
  obtain ⟨rfl, hfallback, hreplaces⟩ := hplaces.of_replacement? hs
  obtain ⟨hchildren, hdraws⟩ := hcleared hreplaces
  have heq : r.displayed = placed ++ written := by simpa [hfallback] using hdisplayed
  refine ⟨hchildren, hdraws, ⟨written, hwritten, heq⟩, ?_⟩
  rw [heq, ← hnone]
  exact List.append_right_eq_self

def boxAndTitle : Context where
  forest := (NormalizedScene.ofCanvas {}
    { attrs := { id := "0:0", name := "Page", kind := .canvas }
      children :=
        [{ attrs := { id := "1", name := "#Box??content=title" }
           children := [{ attrs := { id := "2", name := "label", kind := .text
                                     characters := some "Hi" } }] },
          { attrs := { id := "3", name := "#Title??content=title", kind := .text
                       characters := some "Hi" } }] }).forest
  options := {}
  resources := {}
  descriptions := []

theorem draw_boxAndTitle :
    (boxAndTitle.forest.get? 0).bind Node.slot? = some "title" ∧
      (exec (drawNode boxAndTitle 0 {}) (.start boxAndTitle "Box", {})).1.isOk ∧
      (boxAndTitle.forest.get? 2).bind Node.slot? = some "title" ∧
      (exec (drawNode boxAndTitle 2 {}) (.start boxAndTitle "Title", {})).1.toOption.any
        fun r => r.displayed.length = 2 := by
  decide +kernel

theorem replaced_box :
    ∃ node r t, boxAndTitle.forest.get? 0 = some node ∧
      exec (drawNode boxAndTitle 0 {}) (.start boxAndTitle "Box", {}) = (.ok r, t) ∧
      node.replacement? = some [.slot "title"] ∧ r.children = [] ∧ r.displayed = [.slot "title"] := by
  obtain ⟨hslot, hok, -⟩ := draw_boxAndTitle
  obtain ⟨r, hr⟩ := exists_ok_of_isOk hok
  obtain ⟨node, found, hslot⟩ := Option.bind_eq_some_iff.1 hslot
  have hkind : node.kind = .frame := by
    cases found
    rfl
  have hs : node.replacement? = some [.slot "title"] := by rw [Node.replacement?, hslot]
  have hreplaced := replaced_but_for_text rfl found (Prod.ext hr rfl) hs
  refine ⟨node, r, _, found, Prod.ext hr rfl, hs, hreplaced.1, hreplaced.2.2.2.2 ?_⟩
  rintro ⟨htext, -⟩
  rw [hkind] at htext
  cases htext

/-- The text is shown beside the property that is to take its place. -/
theorem not_forall_replaced :
    ¬∀ (ctx : Context), ctx.plugins = {} → ∀ (i : Nat) (node : Node) (place : Place) (r : Rendered)
      (s t : Scope × Registry) (shown : List Fragment), ctx.forest.get? i = some node →
        exec (drawNode ctx i place) s = (.ok r, t) → node.replacement? = some shown →
          r.displayed = shown := by
  intro h
  obtain ⟨-, -, hslot, hlength⟩ := draw_boxAndTitle
  obtain ⟨node, found, hslot⟩ := Option.bind_eq_some_iff.1 hslot
  have hs : node.replacement? = some [.slot "title"] := by rw [Node.replacement?, hslot]
  rcases hr : (exec (drawNode boxAndTitle 2 {}) (.start boxAndTitle "Title", {})).1 with e | r
    <;> rw [hr] at hlength
  · cases hlength
  · have hshown := h boxAndTitle rfl 2 node {} r _ _ _ found (Prod.ext hr rfl) hs
    simp [Except.toOption, hshown] at hlength

theorem Params.value?_of_contains_eq_false {key : String} {params : Params}
    (h : params.contains key = false) : Params.value? key params = none := by
  have hnone : List.lookup key params = none := by simpa [Params.contains, Table.contains] using h
  rw [Params.value?, hnone]

/-- A nested component leaves nothing of the node but its vector, which takes the place of the
component, and its text, which stands beside it: no child is drawn, and the node shows the component and
no more just when it has neither. -/
theorem instance_but_for_vector_and_text (hp : ctx.plugins = {}) {i : Nat} {node : Node} {place : Place}
    {r : Rendered} {s t : Scope × Registry} (found : ctx.forest.get? i = some node)
    (h : exec (drawNode ctx i place) s = (.ok r, t)) (inside : place.parent.isSome)
    (root : node.attrs.isComponentRoot) (hmask : node.attrs.isMask = false)
    (hcontent : node.params.contains "content" = false) :
    r.children = [] ∧ (∀ e, ¬Draw.Draws ctx ⟨i, place, s.1, s.2⟩ e) ∧
      (∃ placed written : List Fragment, (∀ f ∈ written, f.isWritten) ∧
        r.displayed = placed ++ written ∧
        if (ctx.vector? node).isSome then placed.length ≤ 1 ∧ ∀ f ∈ placed, f.isVector
        else placed = [.component (ctx.nameOf node) node.attrs.id]) ∧
      (r.displayed = [.component (ctx.nameOf node) node.attrs.id] ↔
        ctx.vector? node = none ∧ ¬node.WritesText) := by
  have hvalue := Params.value?_of_contains_eq_false hcontent
  have hslot : node.slot? = none := by simp [Node.slot?, hvalue]
  have hfallback : node.fallbackSlot? = none := by simp [Node.fallbackSlot?, hvalue]
  obtain ⟨hcleared, placed, written, hplaces, hwritten, hnone, hdisplayed⟩ :=
    exists_places_of_drawNode hp found h
  obtain ⟨hchildren, hdraws⟩ := hcleared (by simp [Context.replaces, inside, root])
  have heq : r.displayed = placed ++ written := by simpa [hfallback] using hdisplayed
  have hplaced : if (ctx.vector? node).isSome then placed.length ≤ 1 ∧ ∀ f ∈ placed, f.isVector
      else placed = [.component (ctx.nameOf node) node.attrs.id] := by
    cases hplaces with
    | slot hslot' =>
        rw [hslot] at hslot'
        cases hslot'
    | vector _ hvector hone hdrawn =>
        rw [if_pos hvector]
        exact ⟨hone, hdrawn⟩
    | mask _ hm =>
        rw [hmask] at hm
        cases hm
    | component _ hvector => rw [hvector, if_neg (by simp)]
    | children _ _ _ houtside => simp [inside, root] at houtside
  refine ⟨hchildren, hdraws, ⟨placed, written, hwritten, heq, hplaced⟩, ?_⟩
  rw [heq, ← hnone]
  cases hvector : ctx.vector? node with
  | none =>
      rw [hvector, if_neg (by simp)] at hplaced
      simp [hplaced]
  | some markup =>
      rw [hvector, if_pos (by simp)] at hplaced
      refine ⟨fun hinstance => ?_, fun hboth => by cases hboth.1⟩
      -- The instance is neither part of a vector nor of a text.
      have hmem : Fragment.component (ctx.nameOf node) node.attrs.id ∈ placed ++ written := by
        simp [hinstance]
      rcases List.mem_append.1 hmem with hf | hf
      · cases hplaced.2 _ hf
      · cases hwritten _ hf

def cardWithTitle : Context where
  forest := (NormalizedScene.ofCanvas {}
    { attrs := { id := "0:0", name := "Page", kind := .canvas }
      children :=
        [{ attrs := { id := "1", name := "#Card" }
           children :=
            [{ attrs := { id := "2", name := "#Badge" }
               children := [{ attrs := { id := "3", name := "dot", kind := .rectangle } }] },
              { attrs := { id := "4", name := "#Title", kind := .text
                           characters := some "Hi" } }] }] }).forest
  options := {}
  resources := {}
  descriptions := []

def inCard : Place := { parent := cardWithTitle.forest.get? 0 }

theorem draw_cardWithTitle :
    (exec (drawNode cardWithTitle 1 inCard) (.start cardWithTitle "Card", {})).1.isOk ∧
      (exec (drawNode cardWithTitle 3 inCard) (.start cardWithTitle "Card", {})).1.toOption.any
        fun r => r.displayed.length = 2 := by
  decide +kernel

theorem instance_badge :
    ∃ node r t, cardWithTitle.forest.get? 1 = some node ∧ inCard.parent.isSome ∧
      node.attrs.isComponentRoot ∧ node.attrs.isMask = false ∧
      node.params.contains "content" = false ∧
      exec (drawNode cardWithTitle 1 inCard) (.start cardWithTitle "Card", {}) = (.ok r, t) ∧
      r.children = [] ∧ r.displayed = [.component "Badge" "2"] := by
  obtain ⟨r, hr⟩ := exists_ok_of_isOk draw_cardWithTitle.1
  obtain ⟨node, found, hkind, hroot, hmask, hcontent, hname, hid⟩ :
      ∃ node, cardWithTitle.forest.get? 1 = some node ∧ node.kind = .frame ∧
        node.attrs.isComponentRoot ∧ node.attrs.isMask = false ∧
        node.params.contains "content" = false ∧ cardWithTitle.nameOf node = "Badge" ∧
        node.attrs.id = "2" :=
    ⟨_, rfl, rfl, rfl, rfl, rfl, rfl, rfl⟩
  have hinside : inCard.parent.isSome := rfl
  have hinstance := instance_but_for_vector_and_text rfl found (Prod.ext hr rfl) hinside hroot hmask
    hcontent
  refine ⟨node, r, _, found, hinside, hroot, hmask, hcontent, Prod.ext hr rfl, hinstance.1, ?_⟩
  rw [hname, hid] at hinstance
  refine hinstance.2.2.2.2 ⟨?_, ?_⟩
  · simp [Context.vector?, hkind]
  · rintro ⟨htext, -⟩
    rw [hkind] at htext
    cases htext

/-- The title is shown in the card as an instance and once more as a text. -/
theorem not_forall_instance :
    ¬∀ (ctx : Context), ctx.plugins = {} → ∀ (i : Nat) (node : Node) (place : Place) (r : Rendered)
      (s t : Scope × Registry), ctx.forest.get? i = some node →
        exec (drawNode ctx i place) s = (.ok r, t) → place.parent.isSome →
          node.attrs.isComponentRoot → node.attrs.isMask = false →
            node.params.contains "content" = false →
              r.displayed = [.component (ctx.nameOf node) node.attrs.id] := by
  intro h
  obtain ⟨node, found, hroot, hmask, hcontent⟩ :
      ∃ node, cardWithTitle.forest.get? 3 = some node ∧ node.attrs.isComponentRoot ∧
        node.attrs.isMask = false ∧ node.params.contains "content" = false :=
    ⟨_, rfl, rfl, rfl, rfl⟩
  have hlength := draw_cardWithTitle.2
  rcases hr : (exec (drawNode cardWithTitle 3 inCard) (.start cardWithTitle "Card", {})).1 with e | r
    <;> rw [hr] at hlength
  · cases hlength
  · have hshown := h cardWithTitle rfl 3 node inCard r _ _ found (Prod.ext hr rfl) rfl hroot hmask
      hcontent
    simp [Except.toOption, hshown] at hlength

end DesignCompiler

import Mathlib.Data.List.Infix
import Mathlib.Tactic.Tauto
import DesignCompiler.Text.Basic

namespace DesignCompiler.Text

variable {mark s t rest : List Char} {marks : List (List Char)}

theorem after?_eq_some_iff : after? mark s = some rest ↔ s = mark ++ rest := by
  refine ⟨eq_append_of_after?, ?_⟩
  rintro rfl
  exact after?_append mark rest

theorem after?_cons_self (c : Char) (s : List Char) : after? [c] (c :: s) = some s := after?_append [c] s

theorem isSome_after?_iff : (after? mark s).isSome ↔ mark <+: s := by
  simp only [Option.isSome_iff_exists, after?_eq_some_iff, List.IsPrefix, @eq_comm _ s]

theorem after?_eq_none_iff : after? mark s = none ↔ ¬mark <+: s := by
  rw [← isSome_after?_iff, Option.not_isSome_iff_eq_none]

/-- Reaching beyond a text, a mark goes on with what follows the text. -/
theorem not_isPrefix_append (h : ¬mark <+: s) (hrest : ∀ c ∈ rest.head?, c ∉ mark) : ¬mark <+: s ++ rest := by
  rintro ⟨more, hmore⟩
  rcases List.append_eq_append_iff.1 hmore with ⟨behind, hinside, -⟩ | ⟨beyond, hmark, hbeyond⟩
  · exact h ⟨behind, hinside.symm⟩
  · cases beyond with
    | nil => exact h ⟨[], by simp [hmark]⟩
    | cons d beyond => exact hrest d (by simp [hbeyond]) (by simp [hmark])

/-- None of the marks begins in a text that is followed by `rest`. -/
def Unmarked (marks : List (List Char)) : (s rest : List Char) → Prop
  | [], _ => True
  | c :: s, rest => (∀ m ∈ marks, ¬m <+: c :: (s ++ rest)) ∧ Unmarked marks s rest

namespace Unmarked

theorem append_iff : Unmarked marks (s ++ t) rest ↔ Unmarked marks s (t ++ rest) ∧ Unmarked marks t rest := by
  induction s with
  | nil => simp [Unmarked]
  | cons c s ih => rw [List.cons_append, Unmarked, Unmarked, ih, List.append_assoc, and_assoc]

theorem pair_iff {m n : List Char} :
    Unmarked [m, n] s rest ↔ Unmarked [m] s rest ∧ Unmarked [n] s rest := by
  induction s with
  | nil => simp [Unmarked]
  | cons c s ih =>
      simp only [Unmarked, ih, List.forall_mem_cons, List.not_mem_nil, false_imp_iff, forall_true_iff,
        and_true]
      tauto

theorem of_not_isInfix (h : ¬mark <:+: s) (hrest : ∀ c ∈ rest.head?, c ∉ mark) : Unmarked [mark] s rest := by
  induction s with
  | nil => trivial
  | cons c s ih =>
      refine ⟨?_, ih fun hs => h (hs.trans (List.suffix_cons c s).isInfix)⟩
      intro m hm
      rw [List.mem_singleton.1 hm, ← List.cons_append]
      exact not_isPrefix_append (fun hs => h hs.isInfix) hrest

theorem of_notMem (hne : [] ∉ marks) (h : ∀ c ∈ s, ∀ m ∈ marks, c ∉ m) : Unmarked marks s rest := by
  induction s with
  | nil => trivial
  | cons c s ih =>
      refine ⟨?_, ih fun d hd => h d (List.mem_cons_of_mem c hd)⟩
      intro m hm hbegins
      cases m with
      | nil => exact hne hm
      | cons d m =>
          obtain ⟨rfl, -⟩ := List.cons_prefix_cons.1 hbegins
          exact h d List.mem_cons_self _ hm List.mem_cons_self

/-- Before a mark, what follows the mark does not matter. -/
theorem append_congr (h : Unmarked [mark] s (mark ++ rest)) (rest' : List Char) :
    Unmarked [mark] s (mark ++ rest') := by
  induction s with
  | nil => trivial
  | cons c s ih =>
      refine ⟨?_, ih h.2⟩
      intro m hm hbegins
      rw [List.mem_singleton.1 hm] at hbegins
      have hshort : mark <+: c :: (s ++ mark) := by
        refine List.prefix_of_prefix_length_le hbegins ⟨rest', by simp⟩ ?_
        simp
        omega
      exact h.1 mark (List.mem_singleton_self mark) (hshort.trans ⟨rest, by simp⟩)

theorem not_isInfix (h : Unmarked [mark] s rest) (hne : mark ≠ []) : ¬mark <:+: s := by
  rintro ⟨before, after, rfl⟩
  rw [List.append_assoc, append_iff] at h
  obtain ⟨c, mark, rfl⟩ := List.exists_cons_of_ne_nil hne
  exact h.2.1 _ (List.mem_singleton_self _) ⟨after ++ rest, by simp⟩

end Unmarked

theorem cut?_of_unmarked (h : Unmarked [mark] s (mark ++ rest)) :
    cut? mark (s ++ (mark ++ rest)) = some (s, rest) := by
  induction s with
  | nil =>
      rw [List.nil_append]
      have hafter := after?_append mark rest
      cases hs : mark ++ rest with
      | nil =>
          rw [hs] at hafter
          rw [cut?, hafter]
          rfl
      | cons c cs =>
          rw [hs] at hafter
          rw [cut?, hafter]
  | cons c s ih =>
      have hnone : after? mark (c :: (s ++ (mark ++ rest))) = none :=
        after?_eq_none_iff.2 (h.1 mark (List.mem_singleton_self mark))
      rw [List.cons_append, cut?, hnone, ih h.2]
      rfl

theorem unmarked_of_cut? {before : List Char} (h : cut? mark s = some (before, rest)) :
    Unmarked [mark] before (mark ++ rest) := by
  induction s generalizing before with
  | nil =>
      obtain ⟨r, -, heq⟩ := Option.map_eq_some_iff.1 h
      cases heq
      trivial
  | cons c s ih =>
      rw [cut?] at h
      split at h
      · cases h
        trivial
      · next hnone =>
        obtain ⟨⟨before, rest⟩, hcut, heq⟩ := Option.map_eq_some_iff.1 h
        cases heq
        refine ⟨?_, ih hcut⟩
        intro m hm
        rw [List.mem_singleton.1 hm, ← List.append_assoc, ← eq_append_of_cut? hcut]
        exact after?_eq_none_iff.1 hnone

theorem cut?_eq_none_iff : cut? mark s = none ↔ ¬mark <:+: s := by
  induction s with
  | nil =>
      rw [cut?, Option.map_eq_none_iff, after?_eq_none_iff, List.prefix_nil, List.infix_nil]
  | cons c s ih =>
      rw [cut?, List.infix_cons_iff, not_or, ← ih]
      split
      · next r hr => simp [isSome_after?_iff.1 (Option.isSome_of_eq_some hr)]
      · next hnone => simp [after?_eq_none_iff.1 hnone]

theorem cut?_singleton_eq_some_iff {c : Char} {before : List Char} :
    cut? [c] s = some (before, rest) ↔ c ∉ before ∧ s = before ++ c :: rest := by
  constructor
  · intro h
    refine ⟨?_, by simpa using eq_append_of_cut? h⟩
    have hinfix := (unmarked_of_cut? h).not_isInfix (List.cons_ne_nil c [])
    rwa [List.singleton_infix_iff] at hinfix
  · rintro ⟨hnotMem, rfl⟩
    refine cut?_of_unmarked (Unmarked.of_notMem (by simp) ?_)
    intro d hd m hm
    rw [List.mem_singleton.1 hm, List.mem_singleton]
    rintro rfl
    exact hnotMem hd

theorem breakAt_of_unmarked (hne : [] ∉ marks) (h : Unmarked marks s rest)
    (hrest : rest = [] ∨ ∃ m ∈ marks, m <+: rest) : breakAt marks (s ++ rest) = (s, rest) := by
  induction s with
  | nil =>
      cases rest with
      | nil => rfl
      | cons c rest =>
          rw [List.nil_append, breakAt, if_pos]
          obtain ⟨m, hm, hbegins⟩ := hrest.resolve_left (List.cons_ne_nil c rest)
          have hmark : m ≠ [] := fun heq => hne (heq ▸ hm)
          rw [List.any_eq_true]
          exact ⟨m, hm, by simp [hmark, isSome_after?_iff.2 hbegins]⟩
  | cons c s ih =>
      have hnone : ¬marks.any fun m => !m.isEmpty && (after? m (c :: (s ++ rest))).isSome := by
        rw [List.any_eq_true]
        rintro ⟨m, hm, hsome⟩
        exact h.1 m hm (isSome_after?_iff.1 (Bool.and_eq_true_iff.1 hsome).2)
      rw [List.cons_append, breakAt, if_neg hnone, ih h.2]

theorem unmarked_breakAt (hne : [] ∉ marks) (s : List Char) :
    Unmarked marks (breakAt marks s).1 (breakAt marks s).2 := by
  induction s with
  | nil => trivial
  | cons c s ih =>
      rw [breakAt]
      split
      · trivial
      · next hnone =>
        refine ⟨?_, ih⟩
        intro m hm hbegins
        rw [breakAt_append] at hbegins
        have hmark : m ≠ [] := fun heq => hne (heq ▸ hm)
        exact hnone (List.any_eq_true.2 ⟨m, hm, by simp [hmark, isSome_after?_iff.2 hbegins]⟩)

theorem splitChars_of_not_isInfix (hne : mark ≠ []) (h : ¬mark <:+: s) : splitChars mark s = [s] := by
  rw [splitChars, dif_neg hne, pieces]
  split
  · rfl
  · next hcut => simp [cut?_eq_none_iff.2 h] at hcut

theorem splitChars_of_unmarked (hne : mark ≠ []) (h : Unmarked [mark] s (mark ++ rest)) :
    splitChars mark (s ++ (mark ++ rest)) = s :: splitChars mark rest := by
  rw [splitChars, dif_neg hne, splitChars, dif_neg hne, pieces]
  split
  · next hcut => simp [cut?_of_unmarked h] at hcut
  · next hcut =>
    rw [cut?_of_unmarked h] at hcut
    cases hcut
    rfl

theorem splitChars_ne_nil (mark s : List Char) : splitChars mark s ≠ [] := by
  rw [splitChars]
  split
  · simp
  · rw [pieces]
    split <;> simp

end DesignCompiler.Text

import Mathlib.Data.List.DropRight
import DesignCompiler.Component.Rendered
import DesignCompiler.Proofs.Splitting

namespace DesignCompiler

open Text

inductive Shown where
  | space
  | char (c : Char)
  deriving DecidableEq

namespace Shown

/-- The text of a template literal up to its backtick, and what stands after that. A backslash stands for
the character after it; text with a substitution is no text. -/
def readTemplate? : List Char → Option (List Char × List Char)
  | [] => none
  | '`' :: rest => some ([], rest)
  | '\\' :: c :: rest =>
    if c = '\\' ∨ c = '`' ∨ c = '$' then (readTemplate? rest).map fun (text, rest) => (c :: text, rest)
    else none
  | '$' :: '{' :: _ => none
  | c :: rest => (readTemplate? rest).map fun (text, rest) => (c :: text, rest)

def readSpaces : List Char → Nat × List Char
  | '&' :: 'n' :: 'b' :: 's' :: 'p' :: ';' :: rest =>
    let (n, rest) := readSpaces rest
    (n + 1, rest)
  | rest => (0, rest)

def ofBody? (body : List Char) : Option (List Shown) :=
  match readSpaces body with
  | (before, '{' :: '`' :: rest) =>
    match readTemplate? rest with
    | some (text, '}' :: rest) =>
      match readSpaces rest with
      | (after, []) => some (List.replicate before space ++ text.map char ++ List.replicate after space)
      | _ => none
    | _ => none
  | _ => none

/-- The blanks at the ends of a text are shown one for one as spaces, and what is between them as it is. -/
def Keeps (text : List Char) (shown : List Shown) : Prop :=
  ∃ leading middle trailing, text = leading ++ middle ++ trailing ∧
    (∀ c ∈ leading ++ trailing, isBlank c) ∧
    (∀ c ∈ middle.head?, isBlank c = false) ∧ (∀ c ∈ middle.getLast?, isBlank c = false) ∧
    shown = List.replicate leading.length space ++ middle.map char ++ List.replicate trailing.length space

theorem Keeps.length_eq {text : List Char} {shown : List Shown} (h : Keeps text shown) :
    shown.length = text.length := by
  obtain ⟨leading, middle, trailing, rfl, -, -, -, rfl⟩ := h
  simp

/-- No text begins with an opening brace in a literal unless it does so itself. -/
theorem head?_templateChars_append_ne {s rest : List Char} (h : s.head? ≠ some '{')
    (hrest : rest.head? ≠ some '{') : (templateChars s ++ rest).head? ≠ some '{' := by
  unfold templateChars
  split
  · exact hrest
  · simp
  · next c s _ =>
    split
    · simp
    · simpa using h

theorem readTemplate?_cons {c : Char} (hplain : c ≠ '\\' ∧ c ≠ '`') {s : List Char}
    (hdollar : c = '$' → s.head? ≠ some '{') :
    readTemplate? (c :: s) = (readTemplate? s).map fun (text, rest) => (c :: text, rest) := by
  rw [readTemplate?.eq_def]
  split <;> simp_all

theorem readTemplate?_escaped {c : Char} (h : c = '\\' ∨ c = '`' ∨ c = '$') (s : List Char) :
    readTemplate? ('\\' :: c :: s) = (readTemplate? s).map fun (text, rest) => (c :: text, rest) := by
  rw [readTemplate?, if_pos h]

theorem readTemplate?_templateChars (s rest : List Char) :
    readTemplate? (templateChars s ++ '`' :: rest) = some (s, rest) := by
  induction s using templateChars.induct with
  | case1 => rfl
  | case2 s ih =>
      -- The dollar sign is escaped, so that the brace after it is a character as any other.
      have hbrace := readTemplate?_cons (c := '{') (by decide) (s := templateChars s ++ '`' :: rest) nofun
      rw [templateChars, List.cons_append, List.cons_append, List.cons_append,
        readTemplate?_escaped (.inr (.inr rfl)), hbrace, ih]
      rfl
  | case3 c s hdollar hc ih =>
      have hescaped : c = '\\' ∨ c = '`' ∨ c = '$' := by
        rw [Bool.or_eq_true, decide_eq_true_iff, decide_eq_true_iff] at hc
        exact hc.imp_right .inl
      rw [templateChars, if_pos hc, List.cons_append, List.cons_append, readTemplate?_escaped hescaped, ih]
      · rfl
      · exact hdollar
  | case4 c s hdollar hc ih =>
      have hplain : c ≠ '\\' ∧ c ≠ '`' := by simpa using hc
      have hnext : c = '$' → (templateChars s ++ '`' :: rest).head? ≠ some '{' := by
        intro hc
        refine head?_templateChars_append_ne (fun hbrace => ?_) (by simp)
        obtain ⟨t, rfl⟩ := List.head?_eq_some_iff.1 hbrace
        exact hdollar t hc rfl
      rw [templateChars, if_neg hc, List.cons_append, readTemplate?_cons hplain hnext, ih]
      · rfl
      · exact hdollar

theorem toList_nonBreakingSpaces (n : Nat) :
    (nonBreakingSpaces n).toList = (List.replicate n "&nbsp;".toList).flatten := by
  rw [nonBreakingSpaces]
  induction n with
  | zero => rfl
  | succ n ih => simp [List.replicate_succ, ih]

theorem readSpaces_append (n : Nat) {rest : List Char} (h : rest.head? ≠ some '&') :
    readSpaces ((nonBreakingSpaces n).toList ++ rest) = (n, rest) := by
  rw [toList_nonBreakingSpaces]
  induction n with
  | zero =>
      change readSpaces rest = _
      rw [readSpaces.eq_def]
      split <;> simp_all
  | succ n ih =>
      change readSpaces ('&' :: 'n' :: 'b' :: 's' :: 'p' :: ';' ::
        ((List.replicate n "&nbsp;".toList).flatten ++ rest)) = _
      rw [readSpaces, ih]

theorem ofBody?_spanBody (s : String) :
    ofBody? (spanBody s).toList =
      some (List.replicate (s.toList.takeWhile isBlank).length space ++ (trimChars s.toList).map char ++
        List.replicate (s.toList.rtakeWhile isBlank).length space) := by
  have hbody : (spanBody s).toList = (nonBreakingSpaces (s.toList.takeWhile isBlank).length).toList ++
      '{' :: '`' :: (templateChars (trimChars s.toList) ++ '`' :: '}' ::
        (nonBreakingSpaces (s.toList.reverse.takeWhile isBlank).length).toList) := by
    simp [spanBody, Markup.braced, template, trim]
  have hafter : readSpaces ((nonBreakingSpaces (s.toList.reverse.takeWhile isBlank).length).toList ++ []) =
      ((s.toList.reverse.takeWhile isBlank).length, []) := readSpaces_append _ (by decide)
  rw [List.append_nil] at hafter
  rw [ofBody?, hbody, readSpaces_append _ (by simp)]
  simp only [readTemplate?_templateChars, hafter, List.rtakeWhile, List.length_reverse]

end Shown

namespace Text

variable {s : List Char}

theorem isBlank_of_head?_trimChars {c : Char} (h : (trimChars s).head? = some c) : isBlank c = false := by
  have hprefix : trimChars s <+: trimStartChars s := List.rdropWhile_prefix isBlank _
  obtain ⟨t, ht⟩ := List.head?_eq_some_iff.1 h
  have hstart : (trimStartChars s).head? = some c := by
    obtain ⟨u, hu⟩ := hprefix
    rw [← hu, ht]
    rfl
  have hnot := List.head?_dropWhile_not isBlank s
  rw [trimStartChars] at hstart
  rwa [hstart] at hnot

theorem isBlank_of_getLast?_trimChars {c : Char} (h : (trimChars s).getLast? = some c) :
    isBlank c = false := by
  rw [trimChars, trimEndChars, List.getLast?_reverse] at h
  have hnot := List.head?_dropWhile_not isBlank (trimStartChars s).reverse
  rwa [h] at hnot

/-- The blanks at the end are the same without those at the beginning, unless all are blanks. -/
theorem rtakeWhile_trimStartChars (h : ∃ c ∈ s, isBlank c = false) :
    (trimStartChars s).rtakeWhile isBlank = s.rtakeWhile isBlank := by
  have hshorter : ((trimStartChars s).reverse.takeWhile isBlank).length ≠ (trimStartChars s).reverse.length := by
    intro hlength
    have hall := List.takeWhile_eq_self_iff.1 ((List.takeWhile_prefix isBlank).eq_of_length hlength)
    have hnil : (trimStartChars s).dropWhile isBlank = [] :=
      List.dropWhile_eq_nil_iff.2 fun c hc => hall c (List.mem_reverse.2 hc)
    rw [trimStartChars, List.dropWhile_idempotent] at hnil
    obtain ⟨c, hc, hplain⟩ := h
    have hblank := List.dropWhile_eq_nil_iff.1 hnil c hc
    rw [hplain] at hblank
    cases hblank
  have hsplit : s = s.takeWhile isBlank ++ trimStartChars s := List.takeWhile_append_dropWhile.symm
  rw [List.rtakeWhile, List.rtakeWhile]
  conv_rhs => rw [hsplit, List.reverse_append, List.takeWhile_append, if_neg hshorter]

theorem eq_edges_append (h : ∃ c ∈ s, isBlank c = false) :
    s = s.takeWhile isBlank ++ trimChars s ++ s.rtakeWhile isBlank := by
  have hend : trimChars s ++ s.rtakeWhile isBlank = trimStartChars s := by
    rw [← rtakeWhile_trimStartChars h]
    exact List.rdropWhile_append_rtakeWhile
  rw [List.append_assoc, hend]
  exact List.takeWhile_append_dropWhile.symm

theorem trimChars_eq_nil (h : ∀ c ∈ s, isBlank c) : trimChars s = [] := by
  rw [trimChars, trimStartChars, List.dropWhile_eq_nil_iff.2 h]
  rfl

end Text

section Spans

variable {text : String} {styles : List Nat} {s key : String} {style index : Nat}

theorem ne_empty_of_mem_runs (h : .run s style index key ∈ runs text styles) : s ≠ "" := by
  obtain ⟨before, after, hruns⟩ := List.append_of_mem h
  exact ((isSplit_runs text styles).run before s style index key after hruns).1

/-- The body of the span of a run shows the text between the blanks at its ends as it is, with as many
spaces on each side of it as the run has blanks there. So the text is kept just when the run has a character
that is no blank; a run of blanks is shown as twice as many spaces. -/
theorem span_keeps_iff (h : .run s style index key ∈ runs text styles) :
    ∃ shown, Shown.ofBody? (spanBody s).toList = some shown ∧
      shown = List.replicate (s.toList.takeWhile isBlank).length .space ++ (trimChars s.toList).map .char ++
        List.replicate (s.toList.rtakeWhile isBlank).length .space ∧
      (Shown.Keeps s.toList shown ↔ ∃ c ∈ s.toList, isBlank c = false) ∧
      ((∀ c ∈ s.toList, isBlank c) → shown = List.replicate (2 * s.toList.length) .space) := by
  have hne : s.toList ≠ [] := fun hnil => ne_empty_of_mem_runs h (String.toList_eq_nil_iff.1 hnil)
  have hblank : (∀ c ∈ s.toList, isBlank c) →
      List.replicate (s.toList.takeWhile isBlank).length Shown.space ++ (trimChars s.toList).map .char ++
        List.replicate (s.toList.rtakeWhile isBlank).length .space =
          List.replicate (2 * s.toList.length) .space := by
    intro hall
    rw [List.takeWhile_eq_self_iff.2 hall, List.rtakeWhile_eq_self_iff.2 hall, trimChars_eq_nil hall,
      List.map_nil, List.append_nil, List.replicate_append_replicate, Nat.two_mul]
  refine ⟨_, Shown.ofBody?_spanBody s, rfl, ⟨fun hkeeps => ?_, fun hplain => ?_⟩, hblank⟩
  · -- Twice as many spaces as there are blanks are too many.
    by_contra hnone
    push Not at hnone
    have hlength := hkeeps.length_eq
    rw [hblank fun c hc => by simpa using hnone c hc, List.length_replicate] at hlength
    have hpos := List.length_pos_iff.2 hne
    omega
  · refine ⟨_, _, _, eq_edges_append hplain, ?_, fun c hc => isBlank_of_head?_trimChars hc,
      fun c hc => isBlank_of_getLast?_trimChars hc, rfl⟩
    intro c hc
    rcases List.mem_append.1 hc with hc | hc
    · exact List.mem_takeWhile_imp hc
    · exact List.mem_rtakeWhile_imp hc

theorem span_keeps_marks :
    ∃ shown, Shown.ofBody? (spanBody "  `$\x7ba\\ ").toList = some shown ∧
      Shown.Keeps "  `$\x7ba\\ ".toList shown := by
  have hrun : Piece.run "  `$\x7ba\\ " 0 0 "end" ∈ runs "  `$\x7ba\\ " [] := by decide
  obtain ⟨shown, hread, -, hkeeps, -⟩ := span_keeps_iff hrun
  exact ⟨shown, hread, hkeeps.2 ⟨'a', by decide, by decide⟩⟩

/-- A text of one blank is shown as two spaces. -/
theorem not_forall_span_keeps :
    ¬∀ text styles s style index key, Piece.run s style index key ∈ runs text styles →
      ∃ shown, Shown.ofBody? (spanBody s).toList = some shown ∧ Shown.Keeps s.toList shown := by
  intro h
  obtain ⟨shown, hread, hkeeps⟩ := h " " [] " " 0 0 "end" (by decide)
  rw [Shown.ofBody?_spanBody] at hread
  have hlength := hkeeps.length_eq
  rw [← Option.some.inj hread] at hlength
  exact absurd hlength (by decide)

end Spans

end DesignCompiler

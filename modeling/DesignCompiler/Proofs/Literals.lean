import DesignCompiler.Output.Source
import DesignCompiler.Proofs.Occurrences
import DesignCompiler.Proofs.Spans

namespace DesignCompiler.Text

inductive Scan where
  | inside (cooked : List Char)
  | closed (cooked rest : List Char)
  | substitution (cooked rest : List Char)
  | dangling (cooked : List Char)
  deriving DecidableEq

namespace Scan

def after (before : List Char) : Scan → Scan
  | inside cooked => inside (before ++ cooked)
  | closed cooked rest => closed (before ++ cooked) rest
  | substitution cooked rest => substitution (before ++ cooked) rest
  | dangling cooked => dangling (before ++ cooked)

/-- A backslash takes the next character as it is. -/
def ofChars : List Char → Scan
  | [] => inside []
  | ['\\'] => dangling []
  | '\\' :: c :: rest => (ofChars rest).after [c]
  | '`' :: rest => closed [] rest
  | '$' :: '{' :: rest => substitution [] rest
  | c :: rest => (ofChars rest).after [c]

theorem after_nil (scan : Scan) : scan.after [] = scan := by
  cases scan <;> rfl

theorem after_after (s t : List Char) (scan : Scan) : (scan.after t).after s = scan.after (s ++ t) := by
  cases scan <;> simp [after]

theorem ofChars_escaped (c : Char) (rest : List Char) :
    ofChars ('\\' :: c :: rest) = (ofChars rest).after [c] := by
  rw [ofChars]

theorem ofChars_cons {c : Char} (hplain : c ≠ '\\' ∧ c ≠ '`') {t : List Char}
    (hdollar : c = '$' → t.head? ≠ some '{') : ofChars (c :: t) = (ofChars t).after [c] := by
  rw [ofChars.eq_def]
  split <;> simp_all

theorem ofChars_templateChars (s : List Char) {rest : List Char} (hrest : rest.head? ≠ some '{') :
    ofChars (templateChars s ++ rest) = (ofChars rest).after s := by
  induction s using templateChars.induct with
  | case1 => exact (after_nil _).symm
  | case2 s ih =>
      have hbrace := ofChars_cons (c := '{') (by decide) (t := templateChars s ++ rest) fun h => absurd h (by decide)
      rw [templateChars, List.cons_append, List.cons_append, List.cons_append, ofChars_escaped, hbrace, ih,
        after_after, after_after]
      rfl
  | case3 c s hdollar hc ih =>
      rw [templateChars, if_pos hc, List.cons_append, List.cons_append, ofChars_escaped, ih, after_after]
      · rfl
      · exact hdollar
  | case4 c s hdollar hc ih =>
      have hplain : c ≠ '\\' ∧ c ≠ '`' := by simpa using hc
      have hnext : c = '$' → (templateChars s ++ rest).head? ≠ some '{' := by
        intro hc
        refine Shown.head?_templateChars_append_ne (fun hbrace => ?_) hrest
        obtain ⟨t, rfl⟩ := List.head?_eq_some_iff.1 hbrace
        exact hdollar t hc rfl
      rw [templateChars, if_neg hc, List.cons_append, ofChars_cons hplain hnext, ih, after_after]
      · rfl
      · exact hdollar

end Scan

/-- A carriage return before a line feed is dropped, and any other is a line feed. -/
def unifyLines : List Char → List Char
  | [] => []
  | c :: s =>
    if c = '\r' then if s.head? = some '\n' then unifyLines s else '\n' :: unifyLines s
    else c :: unifyLines s

theorem templateChars_mark {c : Char} (h : c = '\\' ∨ c = '`') (s : List Char) :
    templateChars (c :: s) = '\\' :: c :: templateChars s := by
  rcases h with rfl | rfl <;> simp [templateChars]

theorem templateChars_cons {c : Char} (hplain : c ≠ '\\' ∧ c ≠ '`') {s : List Char}
    (hdollar : c = '$' → s.head? ≠ some '{') : templateChars (c :: s) = c :: templateChars s := by
  rw [templateChars]
  · simp [hplain]
  · rintro rest rfl rfl
    exact hdollar rfl rfl

theorem head?_templateChars_feed (s : List Char) :
    (templateChars s).head? = some '\n' ↔ s.head? = some '\n' := by
  unfold templateChars
  split
  · rfl
  · simp
  · next c s _ =>
    by_cases hc : c = '\\' ∨ c = '`'
    · rcases hc with rfl | rfl <;> simp
    · simp_all

theorem head?_unifyLines_ne {s : List Char} (h : s.head? ≠ some '{') : (unifyLines s).head? ≠ some '{' := by
  induction s with
  | nil => exact h
  | cons c s ih =>
      rw [unifyLines]
      by_cases hc : c = '\r'
      · by_cases hfeed : s.head? = some '\n'
        · rw [if_pos hc, if_pos hfeed]
          exact ih (by simp [hfeed])
        · simp [hc, hfeed]
      · simpa [hc] using h

theorem unifyLines_templateChars (s : List Char) :
    unifyLines (templateChars s) = templateChars (unifyLines s) := by
  induction s using templateChars.induct with
  | case1 => rfl
  | case2 s ih => simp [templateChars, unifyLines, ih]
  | case3 c s hdollar hc ih =>
      have hmark : c = '\\' ∨ c = '`' := by simpa using hc
      have hreturn : c ≠ '\r' := by rcases hmark with rfl | rfl <;> decide
      rw [templateChars_mark hmark, unifyLines, unifyLines, unifyLines, if_neg hreturn, if_neg hreturn,
        if_neg (by decide), ih, templateChars_mark hmark]
  | case4 c s hdollar hc ih =>
      have hplain : c ≠ '\\' ∧ c ≠ '`' := by simpa using hc
      have hnext : c = '$' → s.head? ≠ some '{' := by
        intro hc hbrace
        obtain ⟨t, rfl⟩ := List.head?_eq_some_iff.1 hbrace
        exact hdollar t hc rfl
      rw [templateChars_cons hplain hnext, unifyLines, unifyLines]
      by_cases hreturn : c = '\r'
      · by_cases hfeed : s.head? = some '\n'
        · rw [if_pos hreturn, if_pos hreturn, if_pos hfeed, if_pos ((head?_templateChars_feed s).2 hfeed), ih]
        · rw [if_pos hreturn, if_pos hreturn, if_neg hfeed, if_neg (mt (head?_templateChars_feed s).1 hfeed), ih,
            templateChars_cons (by decide) (by simp)]
      · rw [if_neg hreturn, if_neg hreturn, ih,
          templateChars_cons hplain fun hc => head?_unifyLines_ne (hnext hc)]

section Replacing

variable {mark new s : List Char}

def replaceChars (mark new s : List Char) : List Char := new.intercalate (splitChars mark s)

theorem toList_replace (mark new s : String) :
    (replace mark new s).toList = replaceChars mark.toList new.toList s.toList := by
  rw [replace, String.toList_intercalate, split, List.map_map]
  simp [replaceChars, Function.comp_def]

theorem replaceChars_nil (hne : mark ≠ []) : replaceChars mark new [] = [] := by
  rw [replaceChars, splitChars_of_not_isInfix hne (by simpa using hne)]
  rfl

theorem replaceChars_mark (hne : mark ≠ []) :
    replaceChars mark new (mark ++ s) = new ++ replaceChars mark new s := by
  have hsplit : splitChars mark ([] ++ (mark ++ s)) = [] :: splitChars mark s :=
    splitChars_of_unmarked hne trivial
  rw [List.nil_append] at hsplit
  obtain ⟨p, ps, hs⟩ := List.exists_cons_of_ne_nil (splitChars_ne_nil mark s)
  rw [replaceChars, replaceChars, hsplit, hs, List.intercalate_cons_cons]
  rfl

theorem splitChars_cons (hne : mark ≠ []) {c : Char} (h : ¬mark <+: c :: s) {p : List Char}
    {ps : List (List Char)} (hs : splitChars mark s = p :: ps) : splitChars mark (c :: s) = (c :: p) :: ps := by
  cases hcut : cut? mark s with
  | none =>
      have hnone := cut?_eq_none_iff.1 hcut
      have hcons : ¬mark <:+: c :: s := by
        rw [List.infix_cons_iff, not_or]
        exact ⟨h, hnone⟩
      rw [splitChars_of_not_isInfix hne hnone] at hs
      cases hs
      exact splitChars_of_not_isInfix hne hcons
  | some cut =>
      obtain ⟨before, rest⟩ := cut
      have happend := eq_append_of_cut? hcut
      have hunmarked := unmarked_of_cut? hcut
      rw [List.append_assoc] at happend
      have hcons : Unmarked [mark] (c :: before) (mark ++ rest) := by
        refine ⟨fun m hm => ?_, hunmarked⟩
        rwa [List.mem_singleton.1 hm, ← happend]
      rw [happend, splitChars_of_unmarked hne hunmarked] at hs
      cases hs
      rw [happend, ← List.cons_append, splitChars_of_unmarked hne hcons]

theorem replaceChars_cons (hne : mark ≠ []) {c : Char} (h : ¬mark <+: c :: s) :
    replaceChars mark new (c :: s) = c :: replaceChars mark new s := by
  obtain ⟨p, ps, hs⟩ := List.exists_cons_of_ne_nil (splitChars_ne_nil mark s)
  rw [replaceChars, replaceChars, splitChars_cons hne h hs, hs]
  cases ps with
  | nil => simp
  | cons q qs => rw [List.intercalate_cons_cons, List.intercalate_cons_cons]; rfl

end Replacing

def escapeMarks (s : List Char) : List Char :=
  replaceChars ['`'] ['\\', '`'] (replaceChars ['\\'] ['\\', '\\'] s)

theorem not_singleton_isPrefix {m c : Char} (h : c ≠ m) (s : List Char) : ¬[m] <+: c :: s := by
  rw [List.cons_prefix_cons]
  exact fun hm => h hm.1.symm

theorem escapeMarks_mark {c : Char} (h : c = '\\' ∨ c = '`') (s : List Char) :
    escapeMarks (c :: s) = '\\' :: c :: escapeMarks s := by
  rcases h with rfl | rfl
  · have hslashes : replaceChars ['\\'] ['\\', '\\'] ('\\' :: s) = ['\\', '\\'] ++ replaceChars ['\\'] ['\\', '\\'] s :=
      replaceChars_mark (List.cons_ne_nil '\\' [])
    rw [escapeMarks, hslashes, List.cons_append, List.cons_append, List.nil_append,
      replaceChars_cons (by simp) (not_singleton_isPrefix (by decide) _),
      replaceChars_cons (by simp) (not_singleton_isPrefix (by decide) _)]
    rfl
  · rw [escapeMarks, replaceChars_cons (by simp) (not_singleton_isPrefix (by decide) _)]
    exact replaceChars_mark (List.cons_ne_nil _ _)

theorem escapeMarks_cons {c : Char} (h : c ≠ '\\' ∧ c ≠ '`') (s : List Char) :
    escapeMarks (c :: s) = c :: escapeMarks s := by
  rw [escapeMarks, replaceChars_cons (by simp) (not_singleton_isPrefix h.1 _),
    replaceChars_cons (by simp) (not_singleton_isPrefix h.2 _)]
  rfl

theorem head?_escapeMarks_ne {s : List Char} (h : s.head? ≠ some '{') : (escapeMarks s).head? ≠ some '{' := by
  cases s with
  | nil => simp [escapeMarks, replaceChars_nil]
  | cons c s =>
      by_cases hc : c = '\\' ∨ c = '`'
      · simp [escapeMarks_mark hc]
      · rw [not_or] at hc
        rw [escapeMarks_cons hc]
        exact h

/-- What one replacement writes is not taken for a mark by the next one. -/
theorem replaceChars_escapeMarks (s : List Char) :
    replaceChars ['$', '{'] ['\\', '$', '{'] (escapeMarks s) = templateChars s := by
  have hplain {c : Char} {t : List Char} (h : ¬(c = '$' ∧ t.head? = some '{')) : ¬['$', '{'] <+: c :: t := by
    rintro ⟨rest, hrest⟩
    cases hrest
    exact h ⟨rfl, rfl⟩
  induction s using templateChars.induct with
  | case1 => simp [escapeMarks, replaceChars_nil, templateChars]
  | case2 s ih =>
      rw [escapeMarks_cons (by decide), escapeMarks_cons (by decide), templateChars, ← ih]
      exact replaceChars_mark (List.cons_ne_nil _ _)
  | case3 c s hdollar hc ih =>
      have hmark : c = '\\' ∨ c = '`' := by simpa using hc
      have hne : c ≠ '$' := by rcases hmark with rfl | rfl <;> decide
      rw [escapeMarks_mark hmark, replaceChars_cons (by simp) (hplain (by simp)),
        replaceChars_cons (by simp) (hplain fun h => hne h.1), ih, templateChars_mark hmark]
  | case4 c s hdollar hc ih =>
      have hmark : c ≠ '\\' ∧ c ≠ '`' := by simpa using hc
      have hnext : c = '$' → s.head? ≠ some '{' := by
        intro hc hbrace
        obtain ⟨t, rfl⟩ := List.head?_eq_some_iff.1 hbrace
        exact hdollar t hc rfl
      rw [escapeMarks_cons hmark,
        replaceChars_cons (by simp) (hplain fun h => head?_escapeMarks_ne (hnext h.1) h.2), ih,
        templateChars_cons hmark hnext]

theorem template_eq_replace (s : String) :
    template s = replace "$\x7b" "\\$\x7b" (replace "`" "\\`" (replace "\\" "\\\\" s)) := by
  apply String.toList_inj.1
  rw [toList_replace, toList_replace, toList_replace, template, String.toList_ofList]
  exact (replaceChars_escapeMarks s.toList).symm

/-- An escaped text is read as the text it was made of, whether or not the ends of lines are unified first, and
the literal around it ends at its own backtick; a reader that takes a backslash before the marks of a template
only reads the same. The escaped text is the text with its marks replaced one after another. -/
theorem template_lossless (s : String) :
    Scan.ofChars (template s).toList = .inside s.toList ∧
      Scan.ofChars (unifyLines (template s).toList) = .inside (unifyLines s.toList) ∧
      (∀ rest, Scan.ofChars ((template s).toList ++ '`' :: rest) = .closed s.toList rest) ∧
      (∀ rest, Shown.readTemplate? ((template s).toList ++ '`' :: rest) = some (s.toList, rest)) ∧
      template s = replace "$\x7b" "\\$\x7b" (replace "`" "\\`" (replace "\\" "\\\\" s)) := by
  have hinside (t : List Char) : Scan.ofChars (templateChars t) = .inside t := by
    have hscan : Scan.ofChars (templateChars t ++ []) = (Scan.ofChars []).after t :=
      Scan.ofChars_templateChars t (by simp)
    rw [List.append_nil] at hscan
    rw [hscan]
    exact congrArg Scan.inside (List.append_nil t)
  have hchars : (template s).toList = templateChars s.toList := String.toList_ofList
  rw [hchars]
  refine ⟨hinside s.toList, ?_, fun rest => ?_, Shown.readTemplate?_templateChars s.toList, template_eq_replace s⟩
  · rw [unifyLines_templateChars]
    exact hinside _
  · rw [Scan.ofChars_templateChars s.toList (by simp)]
    exact congrArg (Scan.closed · rest) (List.append_nil _)

end DesignCompiler.Text

namespace DesignCompiler.Output.ComponentText

open Text

/-- The style sheet of a component stands in a literal of its source, and nothing in it ends that literal. -/
theorem exists_styles_literal (c : ComponentText) (o : Options) :
    ∃ before after, c.source o = before ++ "\n\t\t\t<style jsx>\x7b`\n" ++ after ∧
      Scan.ofChars after.toList = .closed (c.styles.toList ++ ['\n'])
        "\x7d</style>\n\t\t</>\n\t);\n\x7d);\n".toList := by
  refine ⟨c.header o ++ "\n" ++ ("export const " ++ c.instanceName ++ ": React.FC<" ++ c.propsType ++ "> = " ++
      o.decorator ++ "(props => \x7b\n" ++ c.destructuring ++ "\treturn (\n\t\t<>\n" ++ indented c.markup),
    template c.styles ++ "\n`\x7d</style>\n\t\t</>\n\t);\n\x7d);\n", ?_, ?_⟩
  · unfold source body
    simp only [String.append_assoc]
  · have hchars : (template c.styles ++ "\n`\x7d</style>\n\t\t</>\n\t);\n\x7d);\n").toList =
        templateChars c.styles.toList ++ '\n' :: '`' :: "\x7d</style>\n\t\t</>\n\t);\n\x7d);\n".toList := by
      simp [template]
    rw [hchars, Scan.ofChars_templateChars _ (by simp), Scan.ofChars_cons (by decide) (by simp), Scan.ofChars]
    simp [Scan.after]

end DesignCompiler.Output.ComponentText

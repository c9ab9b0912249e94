import DesignCompiler.Proofs.Classes
import DesignCompiler.Proofs.Numerals
import DesignCompiler.Proofs.Stems
import DesignCompiler.StyleSheet.Token

namespace DesignCompiler

open Options

def isIdentStart (c : Char) : Bool := isAsciiLetter c || c = '_'

inductive IsClassIdent : List Char → Prop
  | plain {c : Char} {s : List Char} (hc : isIdentStart c) (hs : ∀ d ∈ s, isClassChar d) : IsClassIdent (c :: s)
  | hyphen {c : Char} {s : List Char} (hc : isIdentStart c) (hs : ∀ d ∈ s, isClassChar d) :
    IsClassIdent ('-' :: c :: s)
  | hyphens {s : List Char} (hs : ∀ d ∈ s, isClassChar d) : IsClassIdent ('-' :: '-' :: s)

theorem toNat_lt_of_isClassChar {c : Char} (h : isClassChar c) : c.toNat < 0x80 := by
  rcases Bool.or_eq_true_iff.1 h with h | h
  · exact Text.toNat_lt_of_isWordChar h
  · rw [of_decide_eq_true h]
    decide

theorem cases_of_isClassChar {c : Char} (h : isClassChar c) :
    (isIdentStart c ∧ c.isDigit = false) ∨ (isIdentStart c = false ∧ c.isDigit) ∨ c = '-' :=
  Text.of_ascii (P := fun c => isClassChar c →
    (isIdentStart c ∧ c.isDigit = false) ∨ (isIdentStart c = false ∧ c.isDigit) ∨ c = '-')
    (by decide) (toNat_lt_of_isClassChar h) h

theorem isClassChar_of_isDigit {c : Char} (h : c.isDigit) : isClassChar c := by
  simp [isClassChar, isWordChar, isAsciiAlphanumeric, Char.isAlphanum, h]

theorem isClassIdent_hyphen_iff {c : Char} {s : List Char} (hc : isClassChar c) (hs : ∀ d ∈ s, isClassChar d) :
    IsClassIdent ('-' :: c :: s) ↔ c.isDigit = false := by
  constructor
  · intro h
    cases h with
    | plain hc => exact absurd hc (by decide)
    | hyphens => decide
    | hyphen hstart =>
        rcases cases_of_isClassChar hc with ⟨-, hdigit⟩ | ⟨hnot, -⟩ | rfl
        · exact hdigit
        · exact absurd (hnot.symm.trans hstart) Bool.false_ne_true
        · decide
  · intro hdigit
    rcases cases_of_isClassChar hc with ⟨hstart, -⟩ | ⟨-, hdigit'⟩ | rfl
    · exact .hyphen hstart hs
    · exact absurd (hdigit.symm.trans hdigit') Bool.false_ne_true
    · exact .hyphens hs

/-- A hyphen alone or with a digit after it. -/
def isBareHyphen : List Char → Bool
  | ['-'] => true
  | '-' :: d :: _ => d.isDigit
  | _ => false

section Prefix

variable {stem digits : List Char}

theorem isClassChar_of_isClassPrefix (h : isClassPrefix stem) : ∀ c ∈ stem, isClassChar c := by
  cases stem with
  | nil => cases h
  | cons c cs =>
      obtain ⟨hc, hcs⟩ := Bool.and_eq_true_iff.1 h
      refine List.forall_mem_cons.2 ⟨?_, List.all_eq_true.1 hcs⟩
      rcases (by simpa [isClassStart, isAsciiLetter] using hc) with (hc | rfl) | rfl
      · simp [isClassChar, isWordChar, isAsciiAlphanumeric, Char.isAlphanum, hc]
      · decide
      · decide

/-- With digits after it a prefix is a name, unless it is a hyphen that only digits come after. -/
theorem isClassIdent_append_iff (h : isClassPrefix stem) (hdigits : Decimal.IsDigits digits) :
    IsClassIdent (stem ++ digits) ↔ isBareHyphen stem = false := by
  obtain ⟨hne, hdigit⟩ := hdigits
  have hchars := isClassChar_of_isClassPrefix h
  have hlast : ∀ c ∈ digits, isClassChar c := fun c hc => isClassChar_of_isDigit (hdigit c hc)
  cases stem with
  | nil => cases h
  | cons c cs =>
      obtain ⟨hc, hcs⟩ := List.forall_mem_cons.1 hchars
      have hrest : ∀ d ∈ cs ++ digits, isClassChar d := List.forall_mem_append.2 ⟨hcs, hlast⟩
      by_cases hhyphen : c = '-'
      · -- What comes after the hyphen is of the prefix, or else the first digit.
        subst hhyphen
        cases cs with
        | nil =>
            obtain ⟨d, ds, rfl⟩ := List.exists_cons_of_ne_nil hne
            obtain ⟨hd, hds⟩ := List.forall_mem_cons.1 hlast
            change IsClassIdent ('-' :: d :: ds) ↔ true = false
            rw [isClassIdent_hyphen_iff hd hds, hdigit d List.mem_cons_self]
        | cons d cs =>
            obtain ⟨hd, hds⟩ := List.forall_mem_cons.1 hrest
            exact isClassIdent_hyphen_iff hd hds
      · have hstart : isIdentStart c := by
          simpa [isClassStart, isIdentStart, hhyphen] using (Bool.and_eq_true_iff.1 h).1
        have hbare : isBareHyphen (c :: cs) = false := by
          rw [isBareHyphen.eq_3 _ (by simp [hhyphen]) (by simp [hhyphen])]
        exact ⟨fun _ => hbare, fun _ => .plain hstart hrest⟩

end Prefix

section Numbered

variable {stem : String}

theorem toList_numberedClass (stem : String) (n : Nat) :
    (numberedClass stem n).toList = stem.toList ++ (toString n).toList := by
  rw [numberedClass, String.toList_append]

theorem isClassChar_of_mem_numberedClass (h : isClassPrefix stem.toList) (n : Nat) :
    ∀ c ∈ (numberedClass stem n).toList, isClassChar c := by
  rw [toList_numberedClass]
  exact List.forall_mem_append.2 ⟨isClassChar_of_isClassPrefix h,
    fun c hc => isClassChar_of_isDigit ((Decimal.isDigits_toString n).2 c hc)⟩

theorem isClassIdent_numberedClass (h : isClassPrefix stem.toList) (n : Nat) :
    IsClassIdent (numberedClass stem n).toList ↔ isBareHyphen stem.toList = false := by
  rw [toList_numberedClass, isClassIdent_append_iff h (Decimal.isDigits_toString n)]

end Numbered

/-- The class that a rule selects is the longest run of characters after the dot, if that is a name. -/
def SelectsClass (rule name : List Char) : Prop :=
  ∃ rest, rule = '.' :: rest ∧ rest.takeWhile isClassChar = name ∧ IsClassIdent name

def classWords (value : List Char) : List (List Char) :=
  (value.splitOnP StyleSheet.isSpace).filter (· ≠ [])

def Selects (rule value : String) : Prop :=
  ∃ name ∈ classWords value.toList, SelectsClass rule.toList name

theorem selectsClass_iff {stem : String} (h : isClassPrefix stem.toList) (n : Nat) {rest name : List Char}
    (hrest : ∀ c ∈ rest.head?, isClassChar c = false) :
    SelectsClass ('.' :: ((numberedClass stem n).toList ++ rest)) name ↔
      name = (numberedClass stem n).toList ∧ isBareHyphen stem.toList = false := by
  have hrun : ((numberedClass stem n).toList ++ rest).takeWhile isClassChar = (numberedClass stem n).toList := by
    have hnone : rest.takeWhile isClassChar = [] := by
      cases rest with
      | nil => rfl
      | cons c rest => rw [List.takeWhile_cons, hrest c rfl, if_neg Bool.false_ne_true]
    rw [List.takeWhile_append_of_pos (isClassChar_of_mem_numberedClass h n), hnone, List.append_nil]
  rw [← isClassIdent_numberedClass h n]
  constructor
  · rintro ⟨rest', heq, hname, hident⟩
    obtain ⟨-, rfl⟩ := List.cons.inj heq
    obtain rfl := hrun.symm.trans hname
    exact ⟨rfl, hident⟩
  · rintro ⟨rfl, hident⟩
    exact ⟨_, rfl, hrun, hident⟩

theorem not_isSpace_of_isClassChar {c : Char} (h : isClassChar c) : StyleSheet.isSpace c = false :=
  Text.of_ascii (P := fun c => isClassChar c → StyleSheet.isSpace c = false) (by decide)
    (toNat_lt_of_isClassChar h) h

theorem classWords_of_isClassChar {s : List Char} (hs : ∀ c ∈ s, isClassChar c) (hne : s ≠ []) :
    classWords s = [s] := by
  rw [classWords, List.splitOnP_eq_singleton fun c hc => not_isSpace_of_isClassChar (hs c hc),
    List.filter_cons_of_pos (by simpa using hne), List.filter_nil]

theorem classWords_intercalate (ws : List (List Char)) :
    classWords ([' '].intercalate ws) = ws.flatMap classWords := by
  induction ws with
  | nil => rfl
  | cons w ws ih =>
      cases ws with
      | nil => simp
      | cons w' ws =>
          have hblank : StyleSheet.isSpace ' ' := by decide
          rw [List.intercalate_cons_cons, List.append_assoc, List.singleton_append, classWords,
            List.splitOnP_append_cons _ _ hblank, List.filter_append, List.flatMap_cons, ← ih]
          rfl

/-- The words of the classes of an element. A class that a designer gave may be several words, or none. -/
theorem mem_classWords_iff {stem : String} (h : isClassPrefix stem.toList) {classes : List ClassName} {n : Nat} :
    (numberedClass stem n).toList ∈ classWords (" ".intercalate (classes.map (ClassName.text stem))).toList ↔
      .numbered n ∈ classes ∨
        ∃ name, .named name ∈ classes ∧ (numberedClass stem n).toList ∈ classWords name.toList := by
  have hblank : " ".toList = [' '] := rfl
  have hnumbered (m : Nat) : (numberedClass stem n).toList ∈ classWords (numberedClass stem m).toList ↔ m = n := by
    have hne : (numberedClass stem m).toList ≠ [] := by
      rw [toList_numberedClass]
      exact List.append_ne_nil_of_right_ne_nil _ (Decimal.isDigits_toString m).1
    rw [classWords_of_isClassChar (isClassChar_of_mem_numberedClass h m) hne, List.mem_singleton,
      String.toList_inj, (numberedClass_injective stem).eq_iff, eq_comm]
  rw [String.toList_intercalate, hblank, classWords_intercalate, List.map_map, List.mem_flatMap]
  constructor
  · rintro ⟨_, hword, hmem⟩
    obtain ⟨c, hc, rfl⟩ := List.mem_map.1 hword
    cases c with
    | numbered m => exact .inl ((hnumbered m).1 hmem ▸ hc)
    | named name => exact .inr ⟨name, hc, hmem⟩
  · rintro (hn | ⟨name, hname, hmem⟩)
    · exact ⟨_, List.mem_map_of_mem hn, (hnumbered n).2 rfl⟩
    · exact ⟨_, List.mem_map_of_mem hname, hmem⟩

theorem selects_iff {stem text : String} (h : isClassPrefix stem.toList) {n : Nat} {rest : List Char}
    (htext : text.toList = '.' :: ((numberedClass stem n).toList ++ rest))
    (hrest : ∀ c ∈ rest.head?, isClassChar c = false) (classes : List ClassName) :
    Selects text (" ".intercalate (classes.map (ClassName.text stem))) ↔ isBareHyphen stem.toList = false ∧
      (.numbered n ∈ classes ∨
        ∃ name, .named name ∈ classes ∧ (numberedClass stem n).toList ∈ classWords name.toList) := by
  rw [Selects, htext, ← mem_classWords_iff h]
  simp only [selectsClass_iff h n hrest]
  constructor
  · rintro ⟨_, hmem, rfl, hbare⟩
    exact ⟨hbare, hmem⟩
  · rintro ⟨hbare, hmem⟩
    exact ⟨_, hmem, rfl, hbare⟩

theorem Rule.exists_toList_text {stem text : String} {r : Rule} (h : r.text? stem = some text) :
    ∃ rest, text.toList = '.' :: ((numberedClass stem r.number).toList ++ ' ' :: rest) := by
  have hdot : ".".toList = ['.'] := rfl
  have hbrace : " \x7b\n".toList = ' ' :: "\x7b\n".toList := rfl
  rw [Rule.text?, StyleMap.rule?] at h
  split at h
  · cases h
  · obtain rfl := Option.some.inj h
    simp only [Rule.className, String.toList_append, hdot, hbrace, List.append_assoc, List.cons_append,
      List.nil_append]
    exact ⟨_, rfl⟩

theorem ExtraRule.exists_toList_text (stem : String) (n : Nat) (selector : String) (declarations : List String) :
    ∃ rest, ((allotted n selector declarations).text stem).toList =
      '.' :: ((numberedClass stem n).toList ++ (selector.toList ++ ' ' :: rest)) := by
  have hdot : ".".toList = ['.'] := rfl
  have hbrace : " \x7b\n".toList = ' ' :: "\x7b\n".toList := rfl
  simp only [text, String.toList_append, hdot, hbrace, List.append_assoc, List.cons_append, List.nil_append]
  exact ⟨_, rfl⟩

/-- Under a valid prefix all numbers make names of classes, unless the prefix is a hyphen that has nothing or
a digit after it, and then none does. Different numbers make different names. A rule of a number selects the
elements that have the number and those whose designer gave them the same name, or none if it is no name. -/
theorem classNames_of_validate {o : Options} (h : o.validate = .ok ()) :
    (∀ n, IsClassIdent (numberedClass o.classPrefix n).toList ↔ isBareHyphen o.classPrefix.toList = false) ∧
    Function.Injective (numberedClass o.classPrefix) ∧
    (∀ (r : Rule) (text : String), r.text? o.classPrefix = some text → ∀ classes : List ClassName,
      (Selects text (" ".intercalate (classes.map (ClassName.text o.classPrefix))) ↔
        isBareHyphen o.classPrefix.toList = false ∧ (.numbered r.number ∈ classes ∨ ∃ name,
          .named name ∈ classes ∧ (r.className o.classPrefix).toList ∈ classWords name.toList))) ∧
    ∀ (n : Nat) (selector : String) (declarations : List String),
      (∀ c ∈ selector.toList.head?, isClassChar c = false) → ∀ name,
        (SelectsClass ((ExtraRule.allotted n selector declarations).text o.classPrefix).toList name ↔
          name = (numberedClass o.classPrefix n).toList ∧ isBareHyphen o.classPrefix.toList = false) := by
  have hprefix := (validate_eq_ok_iff.1 h).2.1
  refine ⟨isClassIdent_numberedClass hprefix, numberedClass_injective _, ?_, ?_⟩
  · intro r text htext classes
    obtain ⟨rest, hrest⟩ := Rule.exists_toList_text htext
    refine selects_iff hprefix hrest ?_ classes
    rintro _ ⟨⟩
    decide
  · intro n selector declarations hselector name
    obtain ⟨rest, hrest⟩ := ExtraRule.exists_toList_text o.classPrefix n selector declarations
    rw [hrest]
    refine selectsClass_iff hprefix n ?_
    cases hchars : selector.toList with
    | nil =>
        rintro _ ⟨⟩
        decide
    | cons c cs =>
        rw [hchars] at hselector
        exact hselector

/-- Under the prefix of the default options all numbers make names, and the rule of a number selects no
element whose number only begins with the same digit. -/
theorem classNames_default :
    Options.validate {} = .ok () ∧ (∀ n, IsClassIdent (numberedClass "figma-" n).toList) ∧
      ∃ text, Rule.text? "figma-" ⟨3, [("color", .text "red")]⟩ = some text ∧
        Selects text "figma-3 wide" ∧ ¬Selects text "figma-30" := by
  have hvalid : Options.validate {} = .ok () := by decide
  have hbare : isBareHyphen (Options.classPrefix {}).toList = false := by decide
  obtain ⟨hident, -, hselects, -⟩ := classNames_of_validate hvalid
  have hrule := hselects ⟨3, [("color", .text "red")]⟩ _ rfl
  refine ⟨hvalid, fun n => (hident n).2 hbare, _, rfl, ?_, ?_⟩
  · have hvalue : " ".intercalate ([.numbered 3, .named "wide"].map (ClassName.text "figma-")) =
        "figma-3 wide" := by decide
    rw [← hvalue]
    exact (hrule [.numbered 3, .named "wide"]).2 ⟨hbare, .inl List.mem_cons_self⟩
  · have hvalue : " ".intercalate ([.numbered 30].map (ClassName.text "figma-")) = "figma-30" := by decide
    rw [← hvalue]
    intro h
    simpa using ((hrule [.numbered 30]).1 h).2

/-- A hyphen is a valid prefix, though a digit may come after it in the names. -/
theorem not_forall_isClassIdent :
    ¬ ∀ o : Options, o.validate = .ok () → ∀ n, IsClassIdent (numberedClass o.classPrefix n).toList := by
  intro h
  have hvalid : Options.validate { classPrefix := "-" } = .ok () := by decide
  have hident := h _ hvalid 0
  rw [isClassIdent_numberedClass (validate_eq_ok_iff.1 hvalid).2.1] at hident
  exact absurd hident (by decide)

end DesignCompiler

import DesignCompiler.Markup.Sanitize
import DesignCompiler.Proofs.Stems
import DesignCompiler.Style.Map

namespace DesignCompiler

namespace Text

theorem toNat_lt_of_isAlpha {c : Char} (h : c.isAlpha) : c.toNat < 0x80 :=
  toNat_lt_of_isWordChar (by simp [Options.isWordChar, Options.isAsciiAlphanumeric, Char.isAlphanum, h])

theorem isAlpha_of_isLower {c : Char} (h : c.isLower) : c.isAlpha := Bool.or_eq_true_iff.2 (.inr h)

theorem isAlpha_of_isUpper {c : Char} (h : c.isUpper) : c.isAlpha := Bool.or_eq_true_iff.2 (.inl h)

theorem cluster_of_isAlpha {c : Char} (h : c.isAlpha) :
    Cluster.isLower [c] = c.isLower ∧ Cluster.isUpper [c] = c.isUpper ∧ Cluster.isDigit [c] = false ∧
      Cluster.isSeparator [c] = false :=
  of_ascii (P := fun c => c.isAlpha → Cluster.isLower [c] = c.isLower ∧ Cluster.isUpper [c] = c.isUpper ∧
    Cluster.isDigit [c] = false ∧ Cluster.isSeparator [c] = false)
    (by decide) (toNat_lt_of_isAlpha h) h

theorem isUpper_of_isAlpha {c : Char} (h : c.isAlpha) : c.isUpper = !c.isLower :=
  of_ascii (P := fun c => c.isAlpha → c.isUpper = !c.isLower) (by decide) (toNat_lt_of_isAlpha h) h

theorem toUpper_of_isLower {c : Char} (h : c.isLower) :
    c.toUpper.isUpper ∧ c.toUpper.toLower = c ∧ c.toLower = c ∧ upperForm c = [c.toUpper] :=
  of_ascii (P := fun c => c.isLower →
    c.toUpper.isUpper ∧ c.toUpper.toLower = c ∧ c.toLower = c ∧ upperForm c = [c.toUpper])
    (by decide) (toNat_lt_of_isAlpha (isAlpha_of_isLower h)) h

theorem isWordBoundary_of_isLower {c d : Char} (hc : c.isAlpha) (hd : d.isLower) (next : Option Cluster) :
    isWordBoundary [c] [d] next = false := by
  obtain ⟨-, -, hcdigit, -⟩ := cluster_of_isAlpha hc
  obtain ⟨-, hdupper, hddigit, -⟩ := cluster_of_isAlpha (isAlpha_of_isLower hd)
  rw [isUpper_of_isAlpha (isAlpha_of_isLower hd), hd] at hdupper
  simp [isWordBoundary, hcdigit, hdupper, hddigit]

/-- A capital in front of a lower-case letter begins a word. -/
theorem isWordBoundary_of_isUpper {c d e : Char} (hc : c.isAlpha) (hd : d.isUpper) (he : e.isLower) :
    isWordBoundary [c] [d] (some [e]) := by
  obtain ⟨hclower, hcupper, -, -⟩ := cluster_of_isAlpha hc
  obtain ⟨-, hdupper, -, -⟩ := cluster_of_isAlpha (isAlpha_of_isUpper hd)
  obtain ⟨helower, -, -, -⟩ := cluster_of_isAlpha (isAlpha_of_isLower he)
  rw [isUpper_of_isAlpha hc] at hcupper
  cases hcase : c.isLower <;> simp [isWordBoundary, hclower, hcupper, hdupper, helower, hcase, hd, he]

def IsLowerWord (w : List Char) : Prop := w ≠ [] ∧ ∀ c ∈ w, c.isLower

instance (w : List Char) : Decidable (IsLowerWord w) :=
  decidable_of_iff (w ≠ [] ∧ w.all Char.isLower) (and_congr_right' List.all_eq_true)

def capitalized : List Char → List Char
  | [] => []
  | c :: s => c.toUpper :: s

namespace Word

def ofChars (s : List Char) : Word := s.map fun c => [c]

def IsLetters (w : Word) : Prop := ∀ d ∈ w, ∃ c, d = [c] ∧ c.isAlpha

variable {s w : List Char}

theorem flatten_ofChars (s : List Char) : (ofChars s).flatten = s := by
  simp [ofChars, ← List.flatMap_def]

theorem ofChars_append (s t : List Char) : ofChars (s ++ t) = ofChars s ++ ofChars t := List.map_append

theorem isLetters_ofChars (h : ∀ c ∈ s, c.isAlpha) : (ofChars s).IsLetters := by
  intro d hd
  obtain ⟨c, hc, rfl⟩ := List.mem_map.1 hd
  exact ⟨c, rfl, h c hc⟩

theorem lower_ofChars (h : ∀ c ∈ s, c.isAlpha) : (ofChars s).lower = s.map Char.toLower := by
  rw [lower, flatten_ofChars]
  exact lowerAfter_of_ascii (fun c hc => toNat_lt_of_isAlpha (h c hc)) []

theorem map_toLower (h : ∀ c ∈ s, c.isLower) : s.map Char.toLower = s := by
  have hsame : ∀ c ∈ s, c.toLower = id c := fun c hc => (toUpper_of_isLower (h c hc)).2.2.1
  rw [List.map_congr_left hsame, List.map_id]

theorem lower_ofChars_of_isLowerWord (h : IsLowerWord w) : (ofChars w).lower = w := by
  rw [lower_ofChars fun c hc => isAlpha_of_isLower (h.2 c hc), map_toLower h.2]

theorem isAlpha_of_mem_capitalized (h : IsLowerWord w) : ∀ c ∈ capitalized w, c.isAlpha := by
  cases w with
  | nil => exact absurd rfl h.1
  | cons c s =>
      obtain ⟨hc, hs⟩ := List.forall_mem_cons.1 h.2
      have hcapital := isAlpha_of_isUpper (toUpper_of_isLower hc).1
      exact List.forall_mem_cons.2 ⟨hcapital, fun d hd => isAlpha_of_isLower (hs d hd)⟩

theorem lower_ofChars_capitalized (h : IsLowerWord w) : (ofChars (capitalized w)).lower = w := by
  rw [lower_ofChars (isAlpha_of_mem_capitalized h)]
  cases w with
  | nil => rfl
  | cons c s =>
      obtain ⟨hc, hs⟩ := List.forall_mem_cons.1 h.2
      rw [capitalized, List.map_cons, (toUpper_of_isLower hc).2.1, map_toLower hs]

theorem capital_ofChars (h : IsLowerWord w) : (ofChars w).capital = capitalized w := by
  rw [capital, flatten_ofChars]
  cases w with
  | nil => rfl
  | cons c s =>
      obtain ⟨hc, hs⟩ := List.forall_mem_cons.1 h.2
      have hrest := lowerAfter_of_ascii (fun d hd => toNat_lt_of_isAlpha (isAlpha_of_isLower (hs d hd))) []
      simp [upperChars, lowerChars, capitalized, (toUpper_of_isLower hc).2.2.2, hrest, map_toLower hs]

end Word

theorem wordsFrom_lower {word : Word} {s : List Char} (hword : word.IsLetters) (hs : ∀ c ∈ s, c.isLower)
    (rest : List Cluster) :
    wordsFrom word (Word.ofChars s ++ rest) = wordsFrom ((Word.ofChars s).reverse ++ word) rest := by
  induction s generalizing word with
  | nil => rfl
  | cons c s ih =>
      obtain ⟨hc, hs⟩ := List.forall_mem_cons.1 hs
      have hseparator := (cluster_of_isAlpha (isAlpha_of_isLower hc)).2.2.2
      have hinside : word.head?.any (fun d => isWordBoundary d [c] (Word.ofChars s ++ rest).head?) = false := by
        cases word with
        | nil => rfl
        | cons d word =>
            obtain ⟨e, rfl, he⟩ := hword d List.mem_cons_self
            exact isWordBoundary_of_isLower he hc _
      have hletters : Word.IsLetters ([c] :: word) :=
        List.forall_mem_cons.2 ⟨⟨c, rfl, isAlpha_of_isLower hc⟩, hword⟩
      change wordsFrom word ([c] :: (Word.ofChars s ++ rest)) = _
      rw [wordsFrom, hseparator, hinside, if_neg Bool.false_ne_true, if_neg Bool.false_ne_true, ih hletters hs]
      simp [Word.ofChars]

/-- Hyphens between words of letters are where the words end. -/
theorem wordsFrom_intercalate {ws : List (List Char)} (h : ∀ w ∈ ws, IsLowerWord w) (hne : ws ≠ []) :
    wordsFrom [] (Word.ofChars (['-'].intercalate ws)) = ws.map Word.ofChars := by
  have hnil : Word.IsLetters [] := by simp [Word.IsLetters]
  induction ws with
  | nil => exact absurd rfl hne
  | cons w ws ih =>
      obtain ⟨hw, hws⟩ := List.forall_mem_cons.1 h
      cases ws with
      | nil =>
          have hword := wordsFrom_lower hnil hw.2 []
          rw [List.append_nil] at hword
          rw [List.intercalate_singleton, hword]
          simp [wordsFrom]
      | cons w' ws =>
          have hhyphen : Cluster.isSeparator ['-'] := by decide
          rw [List.intercalate_cons_cons, List.append_assoc, Word.ofChars_append, wordsFrom_lower hnil hw.2]
          change wordsFrom _ (['-'] :: Word.ofChars (['-'].intercalate (w' :: ws))) = _
          rw [wordsFrom, hhyphen, if_pos rfl, ih hws (List.cons_ne_nil w' ws)]
          simp

theorem wordsFrom_capital {c d e : Char} (he : e.isAlpha) (hc : c.isUpper) (hd : d.isLower) (word : Word)
    (rest : List Cluster) :
    wordsFrom ([e] :: word) ([c] :: [d] :: rest) =
      ([e] :: word).reverse :: wordsFrom [[c]] ([d] :: rest) := by
  have hseparator := (cluster_of_isAlpha (isAlpha_of_isUpper hc)).2.2.2
  have hbegins : ([e] :: word).head?.any (fun b => isWordBoundary b [c] ([d] :: rest).head?) :=
    isWordBoundary_of_isUpper he hc hd
  rw [wordsFrom, hseparator, if_neg Bool.false_ne_true, if_pos hbegins]

/-- Words of two letters or more begin at their capitals. -/
theorem wordsFrom_capitalized {word : Word} {ws : List (List Char)} (hword : word.IsLetters) (hne : word ≠ [])
    (h : ∀ w ∈ ws, IsLowerWord w ∧ 2 ≤ w.length) :
    wordsFrom word (Word.ofChars (ws.flatMap capitalized)) =
      word.reverse :: ws.map fun w => Word.ofChars (capitalized w) := by
  induction ws generalizing word with
  | nil => rfl
  | cons w ws ih =>
      obtain ⟨⟨hw, hlength⟩, hws⟩ := List.forall_mem_cons.1 h
      match w, hlength with
      | c :: d :: s, _ =>
        obtain ⟨hc, hs⟩ := List.forall_mem_cons.1 hw.2
        have hupper := (toUpper_of_isLower hc).1
        have hcapital : Word.IsLetters [[c.toUpper]] :=
          Word.isLetters_ofChars (s := [c.toUpper]) (by simpa using isAlpha_of_isUpper hupper)
        have hletters : Word.IsLetters ((Word.ofChars (d :: s)).reverse ++ [[c.toUpper]]) := by
          intro b hb
          rcases List.mem_append.1 hb with hb | hb
          · exact Word.isLetters_ofChars (fun c hc => isAlpha_of_isLower (hs c hc)) b (List.mem_reverse.1 hb)
          · exact hcapital b hb
        -- The capital ends the word before it, since the second letter is in lower case.
        obtain ⟨b, before, rfl⟩ := List.exists_cons_of_ne_nil hne
        obtain ⟨e, rfl, he⟩ := hword b List.mem_cons_self
        rw [List.flatMap_cons, Word.ofChars_append]
        change wordsFrom _ ([c.toUpper] :: [d] :: (Word.ofChars s ++ Word.ofChars (ws.flatMap capitalized))) = _
        rw [wordsFrom_capital he hupper (hs d List.mem_cons_self)]
        change _ :: wordsFrom _ (Word.ofChars (d :: s) ++ _) = _
        rw [wordsFrom_lower hcapital hs, ih hletters (by simp) hws]
        simp [Word.ofChars, capitalized]

theorem trimChars_of_not_isBlank {s : List Char} (h : ∀ c ∈ s, isBlank c = false) : trimChars s = s := by
  have hdrop (t : List Char) (ht : ∀ c ∈ t, isBlank c = false) : t.dropWhile isBlank = t := by
    cases t with
    | nil => rfl
    | cons c t => rw [List.dropWhile_cons, ht c List.mem_cons_self, if_neg Bool.false_ne_true]
  rw [trimChars, trimStartChars, hdrop s h, trimEndChars, hdrop _ fun c hc => h c (List.mem_reverse.1 hc),
    List.reverse_reverse]

/-- Words with hyphens between them, after another hyphen if the first one is the name of a vendor. -/
def hyphenated (hasVendor : Bool) (ws : List (List Char)) : List Char :=
  (if hasVendor then ['-'] else []) ++ ['-'].intercalate ws

section Hyphenated

variable {hasVendor : Bool} {first : List Char} {rest : List (List Char)}

theorem isLower_of_mem_hyphenated {ws : List (List Char)} (h : ∀ w ∈ ws, IsLowerWord w) {c : Char}
    (hc : c ∈ hyphenated hasVendor ws) : c = '-' ∨ c.isLower := by
  rcases List.mem_append.1 hc with hc | hc
  · cases hasVendor with
    | true => exact .inl (List.mem_singleton.1 hc)
    | false => cases hc
  · exact (mem_intercalate hc).imp_right fun ⟨w, hw, hcw⟩ => (h w hw).2 c hcw

theorem plain_of_mem_hyphenated {ws : List (List Char)} (h : ∀ w ∈ ws, IsLowerWord w) :
    ∀ c ∈ hyphenated hasVendor ws, isBlank c = false ∧ c.toNat < 0x80 ∧ c ≠ '\r' := by
  intro c hc
  rcases isLower_of_mem_hyphenated h hc with rfl | hlower
  · decide
  · have hascii := toNat_lt_of_isAlpha (isAlpha_of_isLower hlower)
    exact of_ascii (P := fun c => c.isLower → isBlank c = false ∧ c.toNat < 0x80 ∧ c ≠ '\r') (by decide)
      hascii hlower

theorem words_hyphenated {ws : List (List Char)} (h : ∀ w ∈ ws, IsLowerWord w) (hne : ws ≠ []) :
    words (hyphenated hasVendor ws) = ws.map Word.ofChars := by
  have hkept : (ws.map Word.ofChars).filter (!·.isEmpty) = ws.map Word.ofChars := by
    rw [List.filter_eq_self, List.forall_mem_map]
    intro w hw
    simpa [Word.ofChars] using (h w hw).1
  rw [words, clusters_of_ascii fun c hc => (plain_of_mem_hyphenated h c hc).2]
  cases hasVendor with
  | false => exact (congrArg _ (wordsFrom_intercalate h hne)).trans hkept
  | true =>
      have hhyphen : Cluster.isSeparator ['-'] := by decide
      change (wordsFrom [] (['-'] :: Word.ofChars (['-'].intercalate ws))).filter _ = _
      rw [wordsFrom, hhyphen, if_pos rfl, wordsFrom_intercalate h hne]
      exact hkept

theorem words_capitalized {c : Char} {s : List Char} (hc : c.isAlpha) (hs : ∀ d ∈ s, d.isLower)
    (hrest : ∀ w ∈ rest, IsLowerWord w ∧ 2 ≤ w.length) :
    words (c :: s ++ rest.flatMap capitalized) =
      Word.ofChars (c :: s) :: rest.map fun w => Word.ofChars (capitalized w) := by
  have hword : ∀ d ∈ c :: s, d.isAlpha :=
    List.forall_mem_cons.2 ⟨hc, fun d hd => isAlpha_of_isLower (hs d hd)⟩
  have halpha : ∀ d ∈ c :: s ++ rest.flatMap capitalized, d.isAlpha := by
    intro d hd
    rcases List.mem_append.1 hd with hd | hd
    · exact hword d hd
    · obtain ⟨w, hw, hdw⟩ := List.mem_flatMap.1 hd
      exact Word.isAlpha_of_mem_capitalized (hrest w hw).1 d hdw
  have hascii : ∀ d ∈ c :: s ++ rest.flatMap capitalized, d.toNat < 0x80 ∧ d ≠ '\r' := by
    refine fun d hd => ⟨toNat_lt_of_isAlpha (halpha d hd), ?_⟩
    rintro rfl
    exact absurd (halpha _ hd) (by decide)
  have hfirst : Word.IsLetters [[c]] := Word.isLetters_ofChars (s := [c]) (by simpa using hc)
  have hletters : Word.IsLetters ((Word.ofChars s).reverse ++ [[c]]) := by
    intro d hd
    have hd : d ∈ Word.ofChars (c :: s) := by simpa [Word.ofChars, or_comm] using hd
    exact Word.isLetters_ofChars hword d hd
  have hseparator := (cluster_of_isAlpha hc).2.2.2
  rw [words, clusters_of_ascii hascii]
  change (wordsFrom [] ([c] :: Word.ofChars (s ++ rest.flatMap capitalized))).filter _ = _
  rw [wordsFrom, hseparator, if_neg Bool.false_ne_true, List.head?_nil, Option.any_none,
    if_neg Bool.false_ne_true, Word.ofChars_append, wordsFrom_lower hfirst hs,
    wordsFrom_capitalized hletters (by simp) hrest, List.filter_eq_self.2]
  · simp [Word.ofChars]
  · intro w hw
    have hne : w ≠ [] := by
      rcases List.mem_cons.1 hw with rfl | hw
      · simp
      · obtain ⟨v, hv, rfl⟩ := List.mem_map.1 hw
        obtain ⟨d, t, rfl⟩ := List.exists_cons_of_ne_nil (hrest v hv).1.1
        exact List.cons_ne_nil _ _
    simpa using hne

end Hyphenated

end Text

/-- The name of a property in a style sheet: lower-case words, of which all but the first have two letters or
more. -/
def IsPropertyName (name : String) : Prop :=
  ∃ hasVendor first rest, name.toList = Text.hyphenated hasVendor (first :: rest) ∧ Text.IsLowerWord first ∧
    ∀ w ∈ rest, Text.IsLowerWord w ∧ 2 ≤ w.length

section Spelling

open Text

variable {name : String} {hasVendor : Bool} {first : List Char} {rest : List (List Char)}

theorem startsWith_hyphenated (h : name.toList = hyphenated hasVendor (first :: rest)) (hfirst : IsLowerWord first) :
    startsWith "-" name = hasVendor := by
  have hhyphen : "-".toList = ['-'] := rfl
  rw [startsWith, h, hhyphen]
  cases hasVendor with
  | true => rfl
  | false =>
      obtain ⟨c, s, rfl⟩ := List.exists_cons_of_ne_nil hfirst.1
      have hc : c ≠ '-' := by
        rintro rfl
        exact absurd (hfirst.2 '-' List.mem_cons_self) (by decide)
      have hhead : ∃ t, hyphenated false ((c :: s) :: rest) = c :: t := by
        cases rest with
        | nil => exact ⟨s, by simp [hyphenated]⟩
        | cons w rest => exact ⟨s ++ ['-'] ++ ['-'].intercalate (w :: rest), by simp [hyphenated]⟩
      obtain ⟨t, ht⟩ := hhead
      rw [ht, after?, if_neg hc.symm]
      rfl

theorem toList_styleKey (h : name.toList = hyphenated hasVendor (first :: rest)) (hfirst : IsLowerWord first)
    (hrest : ∀ w ∈ rest, IsLowerWord w ∧ 2 ≤ w.length) :
    (Markup.styleKey name).toList =
      (if hasVendor then capitalized first else first) ++ rest.flatMap capitalized := by
  have hwords : ∀ w ∈ first :: rest, IsLowerWord w :=
    List.forall_mem_cons.2 ⟨hfirst, fun w hw => (hrest w hw).1⟩
  have htrim : trim name = name := by
    rw [trim, trimChars_of_not_isBlank, String.ofList_toList]
    rw [h]
    exact fun c hc => (plain_of_mem_hyphenated hwords c hc).1
  have hcapitals : rest.map (Word.capital ∘ Word.ofChars) = rest.map capitalized :=
    List.map_congr_left fun w hw => Word.capital_ofChars (hrest w hw).1
  have hsplit : words name.toList = Word.ofChars first :: rest.map Word.ofChars := by
    rw [h, words_hyphenated hwords (List.cons_ne_nil first rest), List.map_cons]
  rw [Markup.styleKey, htrim, startsWith_hyphenated h hfirst]
  cases hasVendor with
  | true =>
      rw [if_pos rfl, if_pos rfl, pascal, String.toList_ofList, pascalChars, hsplit, List.map_cons,
        List.flatten_cons, Word.capital_ofChars hfirst, List.map_map, hcapitals, List.flatMap_def]
  | false =>
      rw [if_neg Bool.false_ne_true, if_neg Bool.false_ne_true, camel, String.toList_ofList, camelChars, hsplit]
      dsimp only
      rw [Word.lower_ofChars_of_isLowerWord hfirst, List.map_map, hcapitals, List.flatMap_def]

theorem exists_head_styleKey (hasVendor : Bool) (hfirst : IsLowerWord first) :
    ∃ c s, (if hasVendor then capitalized first else first) = c :: s ∧ c.isAlpha ∧ c.isUpper = hasVendor ∧
      (∀ d ∈ s, d.isLower) ∧ (Word.ofChars (c :: s)).lower = first := by
  obtain ⟨c, s, rfl⟩ := List.exists_cons_of_ne_nil hfirst.1
  obtain ⟨hc, hs⟩ := List.forall_mem_cons.1 hfirst.2
  cases hasVendor with
  | true =>
      have hupper := (toUpper_of_isLower hc).1
      exact ⟨c.toUpper, s, rfl, isAlpha_of_isUpper hupper, hupper, hs, Word.lower_ofChars_capitalized hfirst⟩
  | false =>
      have hupper : c.isUpper = false := by rw [isUpper_of_isAlpha (isAlpha_of_isLower hc), hc, Bool.not_true]
      exact ⟨c, s, rfl, isAlpha_of_isLower hc, hupper, hs, Word.lower_ofChars_of_isLowerWord hfirst⟩

theorem isUpper_head_styleKey (h : name.toList = hyphenated hasVendor (first :: rest)) (hfirst : IsLowerWord first)
    (hrest : ∀ w ∈ rest, IsLowerWord w ∧ 2 ≤ w.length) :
    (Markup.styleKey name).toList.head?.any Char.isUpper = hasVendor := by
  obtain ⟨c, s, hhead, -, hupper, -⟩ := exists_head_styleKey hasVendor hfirst
  rw [toList_styleKey h hfirst hrest, hhead]
  exact hupper

theorem toList_kebab_styleKey (h : name.toList = hyphenated hasVendor (first :: rest)) (hfirst : IsLowerWord first)
    (hrest : ∀ w ∈ rest, IsLowerWord w ∧ 2 ≤ w.length) :
    (kebab (Markup.styleKey name)).toList = ['-'].intercalate (first :: rest) := by
  have hlower : rest.map (Word.lower ∘ fun w => Word.ofChars (capitalized w)) = rest.map id :=
    List.map_congr_left fun w hw => Word.lower_ofChars_capitalized (hrest w hw).1
  obtain ⟨c, s, hhead, hc, -, hs, hword⟩ := exists_head_styleKey hasVendor hfirst
  rw [kebab, String.toList_ofList, toList_styleKey h hfirst hrest, hhead, kebabChars, words_capitalized hc hs hrest,
    List.map_cons, hword, List.map_map, hlower, List.map_id]

theorem propertyName_styleKey (h : IsPropertyName name) :
    StyleMap.propertyName (Markup.styleKey name) = name := by
  obtain ⟨hasVendor, first, rest, hname, hfirst, hrest⟩ := h
  have hkebab := toList_kebab_styleKey hname hfirst hrest
  rw [← String.toList_inj, hname, hyphenated, StyleMap.propertyName, isUpper_head_styleKey hname hfirst hrest]
  cases hasVendor with
  | true => rw [if_pos rfl, if_pos rfl, String.toList_append, hkebab]; rfl
  | false => rw [if_neg Bool.false_ne_true, if_neg Bool.false_ne_true, hkebab, List.nil_append]

/-- The key of a property is read back as its name, so that different names have different keys, and a key
begins with a capital just if the name begins with a hyphen. -/
theorem spellings_inverse (h : IsPropertyName name) :
    StyleMap.propertyName (Markup.styleKey name) = name ∧
      (∀ other, IsPropertyName other → Markup.styleKey other = Markup.styleKey name → other = name) ∧
      (Markup.styleKey name).toList.head?.any Char.isUpper = startsWith "-" name := by
  refine ⟨propertyName_styleKey h, ?_, ?_⟩
  · intro other hother hkey
    rw [← propertyName_styleKey hother, hkey, propertyName_styleKey h]
  · obtain ⟨hasVendor, first, rest, hname, hfirst, hrest⟩ := h
    rw [isUpper_head_styleKey hname hfirst hrest, startsWith_hyphenated hname hfirst]

theorem spellings_inverse_oneLetterVendor :
    IsPropertyName "-o-object-fit" ∧ Markup.styleKey "-o-object-fit" = "OObjectFit" ∧
      StyleMap.propertyName "OObjectFit" = "-o-object-fit" := by
  have hname : IsPropertyName "-o-object-fit" :=
    ⟨true, ['o'], ["object".toList, "fit".toList], by decide, by decide, by decide⟩
  have hkey : Markup.styleKey "-o-object-fit" = "OObjectFit" := by decide
  exact ⟨hname, hkey, hkey ▸ (spellings_inverse hname).1⟩

/-- Two capitals in a row without a lower-case letter after them are one word. -/
example : StyleMap.propertyName (Markup.styleKey "-o-x") = "-ox" := by decide

end Spelling

end DesignCompiler

import DesignCompiler.Params

namespace DesignCompiler

open Text

namespace Text

theorem toNat_lt_of_isWordChar {c : Char} (h : Options.isWordChar c) : c.toNat < 0x80 := by
  rw [Options.isWordChar, Options.isAsciiAlphanumeric] at h
  delta Char.isAlphanum Char.isAlpha Char.isUpper Char.isLower Char.isDigit at h
  simp only [Bool.or_eq_true, Bool.and_eq_true, decide_eq_true_eq, UInt32.le_iff_toNat_le, ge_iff_le] at h
  rcases h with (((⟨-, h⟩ | ⟨-, h⟩) | ⟨-, h⟩) | rfl)
  · exact Nat.lt_of_le_of_lt h (by decide)
  · exact Nat.lt_of_le_of_lt h (by decide)
  · exact Nat.lt_of_le_of_lt h (by decide)
  · decide

theorem of_ascii {P : Char → Prop} (h : ∀ n < 0x80, P (Char.ofNat n)) {c : Char} (hc : c.toNat < 0x80) :
    P c := by
  have hchar := h c.toNat hc
  rwa [Char.ofNat_toNat] at hchar

theorem not_continues {c d : Char} (hc : c.toNat < 0x80) (hreturn : c ≠ '\r') (hd : d.toNat < 0x80) :
    continues [c] d = false := by
  have hjoiner : c ≠ zeroWidthJoiner := by
    rintro rfl
    exact absurd hc (by decide)
  have hextending : isExtending d = false := by simp [isExtending]; omega
  have hprepended : isPrepended c = false := by simp [isPrepended]; omega
  simp [continues, hreturn, hjoiner, hextending, hprepended]

theorem clusters_of_ascii {s : List Char} (h : ∀ c ∈ s, c.toNat < 0x80 ∧ c ≠ '\r') :
    clusters s = s.map fun c => [c] := by
  have hfrom (c : Char) (s : List Char) (h : ∀ d ∈ c :: s, d.toNat < 0x80 ∧ d ≠ '\r') :
      clustersFrom [c] s = [c] :: s.map fun d => [d] := by
    induction s generalizing c with
    | nil => rfl
    | cons d s ih =>
        obtain ⟨⟨hc, hreturn⟩, hrest⟩ := List.forall_mem_cons.1 h
        rw [clustersFrom, not_continues hc hreturn (hrest d List.mem_cons_self).1, ih d hrest]
        rfl
  cases s with
  | nil => rfl
  | cons c s => exact hfrom c s h

theorem of_mem_wordsFrom {P : Cluster → Prop} {word : Word} {s : List Cluster} (hword : ∀ d ∈ word, P d)
    (hs : ∀ d ∈ s, d.isSeparator = false → P d) : ∀ w ∈ wordsFrom word s, ∀ d ∈ w, P d := by
  induction s generalizing word with
  | nil =>
      intro w hw d hd
      rw [List.mem_singleton.1 hw, List.mem_reverse] at hd
      exact hword d hd
  | cons c s ih =>
      have hs' : ∀ d ∈ s, d.isSeparator = false → P d := fun d hd => hs d (List.mem_cons_of_mem _ hd)
      have hfirst : ∀ d ∈ word.reverse, P d := fun d hd => hword d (List.mem_reverse.1 hd)
      rw [wordsFrom]
      cases hc : c.isSeparator with
      | true =>
          rw [if_pos rfl, List.forall_mem_cons]
          exact ⟨hfirst, ih (by simp) hs'⟩
      | false =>
          have hP := hs c List.mem_cons_self hc
          rw [if_neg (by simp)]
          split
          · rw [List.forall_mem_cons]
            exact ⟨hfirst, ih (by simpa using hP) hs'⟩
          · exact ih (List.forall_mem_cons.2 ⟨hP, hword⟩) hs'

theorem words_of_isWordChar {s : List Char} (h : ∀ c ∈ s, Options.isWordChar c) :
    ∀ w ∈ words s, w ≠ [] ∧ ∀ d ∈ w, ∃ c, d = [c] ∧ c.isAlphanum := by
  intro w hw
  obtain ⟨hw, hne⟩ := List.mem_filter.1 hw
  refine ⟨by simpa using hne, of_mem_wordsFrom (by simp) ?_ w hw⟩
  have hascii : ∀ c ∈ s, c.toNat < 0x80 ∧ c ≠ '\r' := by
    refine fun c hc => ⟨toNat_lt_of_isWordChar (h c hc), ?_⟩
    rintro rfl
    exact absurd (h _ hc) (by decide)
  rw [clusters_of_ascii hascii]
  intro d hd hseparator
  obtain ⟨c, hc, rfl⟩ := List.mem_map.1 hd
  have hword := h c hc
  simp only [Options.isWordChar, Options.isAsciiAlphanumeric, Bool.or_eq_true, decide_eq_true_eq] at hword
  refine ⟨c, rfl, hword.resolve_right ?_⟩
  rintro rfl
  exact absurd hseparator (by decide)

theorem lowerAfter_of_ascii {s : List Char} (h : ∀ c ∈ s, c.toNat < 0x80) (before : List Char) :
    lowerAfter before s = s.map Char.toLower := by
  induction s generalizing before with
  | nil => rfl
  | cons c s ih =>
      obtain ⟨hc, hs⟩ := List.forall_mem_cons.1 h
      have hsigma : c ≠ 'Σ' := by
        rintro rfl
        exact absurd hc (by decide)
      rw [lowerAfter, if_neg hsigma, lowerForm, if_pos hc, ih hs]
      rfl

end Text

def isStemChar (c : Char) : Bool := c.isLower || c.isDigit || c = '-'

def stemWords (name : String) : List (List Char) := (words (stripNonWord name.toList)).map Word.lower

theorem toLower_of_isAlphanum {c : Char} (h : c.isAlphanum) : isStemChar c.toLower ∧ c.toLower ≠ '-' := by
  have hlt : c.toNat < 0x80 :=
    toNat_lt_of_isWordChar (by simp [Options.isWordChar, Options.isAsciiAlphanumeric, h])
  exact of_ascii (P := fun c => c.isAlphanum → isStemChar c.toLower ∧ c.toLower ≠ '-') (by decide) hlt h

theorem of_mem_stemWords {name : String} :
    ∀ w ∈ stemWords name, w ≠ [] ∧ ∀ c ∈ w, isStemChar c ∧ c ≠ '-' := by
  intro _ hmem
  obtain ⟨w, hw, rfl⟩ := List.mem_map.1 hmem
  obtain ⟨hne, hplain⟩ := words_of_isWordChar (fun c hc => (List.mem_filter.1 hc).2) w hw
  have hchars : ∀ c ∈ w.flatten, c.isAlphanum := by
    intro c hc
    obtain ⟨d, hd, hcd⟩ := List.mem_flatten.1 hc
    obtain ⟨c', rfl, hc'⟩ := hplain d hd
    rwa [List.mem_singleton.1 hcd]
  have hlower : w.lower = w.flatten.map Char.toLower := by
    refine lowerAfter_of_ascii (fun c hc => ?_) []
    exact toNat_lt_of_isWordChar (by simp [Options.isWordChar, Options.isAsciiAlphanumeric, hchars c hc])
  rw [hlower]
  constructor
  · obtain ⟨d, hd⟩ := List.exists_mem_of_ne_nil _ hne
    obtain ⟨c, rfl, -⟩ := hplain d hd
    have hc : c ∈ w.flatten := List.mem_flatten.2 ⟨[c], hd, List.mem_singleton_self c⟩
    exact List.ne_nil_of_mem (List.mem_map_of_mem hc)
  · intro _ hlowered
    obtain ⟨c, hc, rfl⟩ := List.mem_map.1 hlowered
    exact toLower_of_isAlphanum (hchars c hc)

theorem toList_fileStem (name : String) : (fileStem name).toList = ['-'].intercalate (stemWords name) := by
  rw [fileStem, String.toList_ofList, kebabChars, stemWords]

theorem mem_intercalate {α : Type} {x c : α} {ls : List (List α)} (h : c ∈ [x].intercalate ls) :
    c = x ∨ ∃ l ∈ ls, c ∈ l := by
  induction ls with
  | nil => cases h
  | cons l ls ih =>
      cases ls with
      | nil => exact .inr ⟨l, List.mem_cons_self, by simpa using h⟩
      | cons l' ls =>
          rw [List.intercalate_cons_cons, List.append_assoc, List.mem_append, List.mem_append,
            List.mem_singleton] at h
          rcases h with h | h | h
          · exact .inr ⟨l, List.mem_cons_self, h⟩
          · exact .inl h
          · exact (ih h).imp_right fun ⟨m, hm, hc⟩ => ⟨m, List.mem_cons_of_mem _ hm, hc⟩

theorem isStemChar_of_mem {name : String} {c : Char} (h : c ∈ (fileStem name).toList) : isStemChar c := by
  rw [toList_fileStem] at h
  rcases mem_intercalate h with rfl | ⟨w, hw, hc⟩
  · decide
  · exact ((of_mem_stemWords w hw).2 c hc).1

theorem splitOn_fileStem {name : String} (h : stemWords name ≠ []) :
    (fileStem name).toList.splitOn '-' = stemWords name := by
  rw [toList_fileStem]
  exact List.splitOn_intercalate '-' (fun w hw hc => ((of_mem_stemWords w hw).2 _ hc).2 rfl) h

theorem fileStem_eq_empty {name : String} : fileStem name = "" ↔ stemWords name = [] := by
  constructor
  · intro h
    by_cases hwords : stemWords name = []
    · exact hwords
    · have hsplit := splitOn_fileStem hwords
      rw [h] at hsplit
      have hnil : [] ∈ stemWords name := hsplit ▸ List.mem_singleton_self _
      exact absurd rfl (of_mem_stemWords _ hnil).1
  · intro h
    rw [← String.toList_inj, toList_fileStem, h]
    rfl

/-- Two names share a stem just if they have the same words up to case, as `Card1`, `card1` and `Card_1` do. -/
theorem fileStem_inj {name name' : String} :
    fileStem name = fileStem name' ↔ stemWords name = stemWords name' := by
  constructor
  · intro h
    by_cases hwords : stemWords name = []
    · rw [hwords, fileStem_eq_empty.1 (h ▸ fileStem_eq_empty.2 hwords)]
    · have hwords' : stemWords name' ≠ [] := mt fileStem_eq_empty.2 (h ▸ mt fileStem_eq_empty.1 hwords)
      rw [← splitOn_fileStem hwords, ← splitOn_fileStem hwords', h]
  · intro h
    rw [← String.toList_inj, toList_fileStem, toList_fileStem, h]

end DesignCompiler

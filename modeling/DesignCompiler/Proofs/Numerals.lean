import DesignCompiler.Json.Parser
import DesignCompiler.Json.Printer

namespace DesignCompiler

namespace Decimal

def IsDigits (s : List Char) : Prop := s ≠ [] ∧ ∀ c ∈ s, c.isDigit

theorem isDigits_toString (n : Nat) : IsDigits (toString n).toList := by
  rw [Nat.toString_eq_repr, Nat.toList_repr]
  exact ⟨Nat.toDigits_ne_nil, fun c hc => Nat.isDigit_of_mem_toDigits (by decide) (by decide) hc⟩

theorem natOfDigits_toString (n : Nat) : natOfDigits 0 (toString n).toList = n := by
  rw [Nat.toString_eq_repr, Nat.toList_repr]
  exact Nat.ofDigitChars_ten_toDigits

theorem head?_toString {n : Nat} (h : n ≠ 0) : (toString n).toList.head? ≠ some '0' := by
  rw [Nat.toString_eq_repr, Nat.toList_repr]
  induction n using Nat.strongRecOn with
  | ind n ih =>
      by_cases hlt : n < 10
      · rw [Nat.toDigits_of_lt_base hlt]
        simpa using h
      · have hle : 10 ≤ n := Nat.le_of_not_lt hlt
        have hfirst := ih (n / 10) (by omega) (by omega)
        obtain ⟨d, ds, hds⟩ := List.exists_cons_of_ne_nil (Nat.toDigits_ne_nil (n := n / 10) (b := 10))
        rw [hds] at hfirst
        rw [Nat.toDigits_of_base_le (by decide) hle, hds]
        exact hfirst

theorem IsDigits.append_digits {s t : List Char} (hs : IsDigits s) (ht : ∀ c ∈ t, c.isDigit) :
    IsDigits (s ++ t) := by
  refine ⟨by simp [hs.1], fun c hc => ?_⟩
  exact (List.mem_append.1 hc).elim (hs.2 c) (ht c)

/-- A number by the parts in which it is written. -/
structure Numeral where
  negative : Bool
  whole : List Char
  fraction : List Char
  exponent : Option (Bool × List Char)

namespace Numeral

structure WellFormed (n : Numeral) : Prop where
  whole : IsDigits n.whole
  lead : n.whole.head? = some '0' → n.whole.length = 1
  fraction : ∀ c ∈ n.fraction, c.isDigit
  exponent : ∀ e ∈ n.exponent, IsDigits e.2

def signChars (negative : Bool) : List Char := if negative then ['-'] else []

def fractionChars : List Char → List Char
  | [] => []
  | c :: cs => '.' :: c :: cs

theorem fractionChars_of_ne_nil {s : List Char} (h : s ≠ []) : fractionChars s = '.' :: s := by
  obtain ⟨c, cs, rfl⟩ := List.exists_cons_of_ne_nil h
  rfl

def exponentChars : Option (Bool × List Char) → List Char
  | none => []
  | some (negative, digits) => 'e' :: signChars negative ++ digits

def chars (n : Numeral) : List Char :=
  signChars n.negative ++ (n.whole ++ (fractionChars n.fraction ++ exponentChars n.exponent))

end Numeral

end Decimal

namespace Json

open Decimal Numeral

theorem takeWhile_digits {s rest : List Char} (hs : ∀ c ∈ s, c.isDigit)
    (hrest : ∀ c ∈ rest.head?, c.isDigit = false) :
    (s ++ rest).takeWhile Char.isDigit = s ∧ (s ++ rest).dropWhile Char.isDigit = rest := by
  rw [List.takeWhile_append_of_pos hs, List.dropWhile_append_of_pos hs]
  cases rest with
  | nil => simp
  | cons c rest =>
      have hc := hrest c rfl
      simp [hc]

theorem head?_exponentChars (e : Option (Bool × List Char)) : ∀ c ∈ (exponentChars e).head?, c = 'e' := by
  rcases e with _ | ⟨negative, digits⟩ <;> simp [exponentChars]

theorem readFraction?_chars {fraction : List Char} (h : ∀ c ∈ fraction, c.isDigit)
    (e : Option (Bool × List Char)) :
    readFraction? (fractionChars fraction ++ exponentChars e) = some (fraction, exponentChars e) := by
  have hexponent : ∀ c ∈ (exponentChars e).head?, c.isDigit = false := by
    intro c hc
    rw [head?_exponentChars e c hc]
    rfl
  cases fraction with
  | nil => rcases e with _ | ⟨negative, digits⟩ <;> rfl
  | cons c cs =>
      obtain ⟨htake, hdrop⟩ := takeWhile_digits h hexponent
      rw [fractionChars, List.cons_append, readFraction?, htake, hdrop]
      rfl

def exponentValue : Bool × List Char → Int
  | (negative, digits) => if negative then -(natOfDigits 0 digits : Int) else natOfDigits 0 digits

theorem readExponentPart?_chars {e : Option (Bool × List Char)} (h : ∀ d ∈ e, IsDigits d.2) :
    readExponentPart? (exponentChars e) = some (e.map exponentValue, []) := by
  rcases e with _ | ⟨negative, digits⟩
  · rfl
  · obtain ⟨hne, hdigits⟩ := h _ rfl
    have hnil : ∀ c ∈ ([] : List Char).head?, c.isDigit = false := by simp
    obtain ⟨htake, hdrop⟩ := takeWhile_digits hdigits hnil
    rw [List.append_nil] at htake hdrop
    obtain ⟨d, ds, rfl⟩ := List.exists_cons_of_ne_nil hne
    have hd := hdigits d List.mem_cons_self
    have hminus : d ≠ '-' := by
      rintro rfl
      exact absurd hd (by decide)
    have hplus : d ≠ '+' := by
      rintro rfl
      exact absurd hd (by decide)
    cases negative with
    | true => simp [exponentChars, signChars, readExponentPart?, htake, hdrop, exponentValue]
    | false => simp [exponentChars, signChars, readExponentPart?, htake, hdrop, exponentValue, hminus, hplus]

def numeralValue? (n : Numeral) : Option Number :=
  if n.fraction.isEmpty && (n.exponent.map exponentValue).isNone then wholeNumber? n.negative n.whole
  else
    (decimal? n.whole n.fraction ((n.exponent.map exponentValue).getD 0)).map
      fun x => .float (if n.negative then -x else x)

theorem ne_minus_of_isDigits {c : Char} {s : List Char} (h : IsDigits (c :: s)) : c ≠ '-' := by
  rintro rfl
  exact absurd (h.2 '-' List.mem_cons_self) (by decide)

theorem lead_eq_false {n : Numeral} (h : n.WellFormed) :
    (n.whole.isEmpty || (n.whole.head? = some '0' && 1 < n.whole.length)) = false := by
  obtain ⟨d, ds, hwhole⟩ := List.exists_cons_of_ne_nil h.whole.1
  have hone := h.lead
  rw [hwhole] at hone ⊢
  simp only [List.isEmpty_cons, Bool.false_or, Bool.and_eq_false_imp, decide_eq_true_eq,
    decide_eq_false_iff_not]
  intro hzero
  rw [hone hzero]
  exact Nat.lt_irrefl 1

theorem readNumber?_chars {n : Numeral} (h : n.WellFormed) :
    readNumber? n.chars = some (numeralValue? n, []) := by
  have hfraction := readFraction?_chars h.fraction n.exponent
  have hexponent := readExponentPart?_chars h.exponent
  have hrest : ∀ c ∈ (fractionChars n.fraction ++ exponentChars n.exponent).head?, c.isDigit = false := by
    rcases n.fraction with _ | ⟨d, ds⟩
    · intro c hc
      rw [head?_exponentChars n.exponent c hc]
      rfl
    · rintro c ⟨⟩
      rfl
  obtain ⟨htake, hdrop⟩ := takeWhile_digits h.whole.2 hrest
  unfold readNumber?
  split
  next negative t hsign =>
  obtain ⟨rfl, rfl⟩ : negative = n.negative ∧
      t = n.whole ++ (fractionChars n.fraction ++ exponentChars n.exponent) := by
    rw [Numeral.chars] at hsign
    cases hneg : n.negative with
    | true =>
        rw [hneg] at hsign
        cases hsign
        exact ⟨rfl, rfl⟩
    | false =>
        rw [hneg] at hsign
        simp only [signChars, Bool.false_eq_true, if_false, List.nil_append] at hsign
        split at hsign
        · next r hr =>
          obtain ⟨d, ds, hwhole⟩ := List.exists_cons_of_ne_nil h.whole.1
          rw [hwhole] at hr
          exact absurd (List.cons.inj hr).1 (ne_minus_of_isDigits (hwhole ▸ h.whole))
        · cases hsign
          exact ⟨rfl, rfl⟩
  dsimp only
  rw [htake, hdrop, lead_eq_false h, if_neg Bool.false_ne_true, hfraction, Option.bind_eq_bind,
    Option.bind_some]
  dsimp only
  rw [hexponent, Option.bind_eq_bind, Option.bind_some]
  dsimp only
  rw [numeralValue?]
  split <;> rfl

theorem exists_readNumber?_chars {n : Numeral} (h : n.WellFormed)
    (hfractional : n.fraction ≠ [] ∨ n.exponent ≠ none) :
    ∃ x : Option Float, readNumber? n.chars = some (x.map .float, []) := by
  have hnot : (n.fraction.isEmpty && (n.exponent.map exponentValue).isNone) = false := by
    rcases hfractional with hne | hne
    · simp [hne]
    · obtain ⟨e, he⟩ := Option.ne_none_iff_exists'.1 hne
      simp [he]
  rw [readNumber?_chars h, numeralValue?, if_neg (by rw [hnot]; exact Bool.false_ne_true)]
  exact ⟨(decimal? _ _ _).map fun x => if n.negative then -x else x, by rw [Option.map_map]; rfl⟩

theorem exists_numeral_nat {n : Nat} (h : n ≤ maxWord) :
    ∃ m : Numeral, m.WellFormed ∧ (Number.int n).render.toList = m.chars ∧
      readNumber? m.chars = some (some (.int n), []) := by
  have hwell : (Numeral.mk false (toString n).toList [] none).WellFormed := by
    refine ⟨isDigits_toString n, fun hzero => ?_, by simp, by simp⟩
    by_cases hn : n = 0
    · rw [hn]
      rfl
    · exact absurd hzero (head?_toString hn)
  refine ⟨_, hwell, ?_, ?_⟩
  · simp [Numeral.chars, signChars, fractionChars, exponentChars, Number.render, Int.repr_eq_if]
  · rw [readNumber?_chars hwell]
    simp only [numeralValue?, wholeNumber?, natOfDigits_toString, List.isEmpty_nil, Option.map_none,
      Option.isNone_none, Bool.and_self, if_true, Bool.false_eq_true, if_false, if_pos h]

end Json

namespace Decimal

open Numeral

structure IsLeading (s : List Char) : Prop where
  digits : IsDigits s
  head? : s.head? ≠ some '0'

theorem isLeading_toString {n : Nat} (h : n ≠ 0) : IsLeading (toString n).toList :=
  ⟨isDigits_toString n, head?_toString h⟩

theorem IsLeading.append {s t : List Char} (h : IsLeading s) (ht : ∀ c ∈ t, c.isDigit) :
    IsLeading (s ++ t) := by
  refine ⟨h.digits.append_digits ht, ?_⟩
  obtain ⟨c, cs, rfl⟩ := List.exists_cons_of_ne_nil h.digits.1
  exact h.head?

theorem IsLeading.take {s : List Char} (h : IsLeading s) {n : Nat} (hn : n ≠ 0) : IsLeading (s.take n) := by
  obtain ⟨c, cs, rfl⟩ := List.exists_cons_of_ne_nil h.digits.1
  obtain ⟨m, rfl⟩ := Nat.exists_eq_succ_of_ne_zero hn
  exact ⟨⟨by simp, fun d hd => h.digits.2 d (List.mem_of_mem_take hd)⟩, h.head?⟩

theorem isDigit_of_mem_zeros {n : Nat} : ∀ c ∈ (zeros n).toList, c.isDigit := by
  intro c hc
  rw [zeros, String.toList_ofList] at hc
  rw [List.eq_of_mem_replicate hc]
  rfl

theorem toList_repr_int (i : Int) :
    i.repr.toList = signChars (decide (i < 0)) ++ Nat.toDigits 10 i.natAbs := by
  rw [Int.repr_eq_if]
  by_cases h : i < 0
  · have habs : (-i).toNat = i.natAbs := by omega
    simp [Int.not_le.2 h, h, habs, signChars]
  · have habs : i.toNat = i.natAbs := by omega
    simp [Int.not_lt.1 h, h, habs, signChars]

structure Numeral.IsFractional (n : Numeral) : Prop extends n.WellFormed where
  fractional : n.fraction ≠ [] ∨ n.exponent ≠ none

theorem Numeral.IsFractional.of_leading {negative : Bool} {whole fraction : List Char}
    {exponent : Option (Bool × List Char)} (hwhole : IsLeading whole) (hfraction : ∀ c ∈ fraction, c.isDigit)
    (hexponent : ∀ e ∈ exponent, IsDigits e.2) (h : fraction ≠ [] ∨ exponent ≠ none) :
    (Numeral.mk negative whole fraction exponent).IsFractional where
  whole := hwhole.digits
  lead hzero := absurd hzero hwhole.head?
  fraction := hfraction
  exponent := hexponent
  fractional := h

theorem Numeral.IsFractional.of_zero {negative : Bool} {fraction : List Char}
    (hfraction : IsDigits fraction) : (Numeral.mk negative ['0'] fraction none).IsFractional where
  whole := ⟨by simp, by simp⟩
  lead _ := rfl
  fraction := hfraction.2
  exponent := by simp
  fractional := .inl hfraction.1

theorem toList_placePoint {digits : String} {n : Nat} (hn : n ≠ 0) (hlt : n < digits.length) :
    (placePoint digits n).toList = digits.toList.take n ++ fractionChars (digits.toList.drop n) := by
  have hlength : n < digits.toList.length := by rwa [String.length_toList]
  have hdrop : digits.toList.drop n ≠ [] := mt List.drop_eq_nil_iff.1 (Nat.not_le_of_lt hlength)
  have hpos : ¬ (n : Int) ≤ 0 := by omega
  rw [placePoint, if_neg hpos, Int.toNat_natCast, if_neg (Nat.not_le_of_lt hlt),
    fractionChars_of_ne_nil hdrop]
  simp

theorem exists_numeral_placePoint {digits : String} (negative : Bool)
    (exponent : Option (Bool × List Char)) {n : Nat} (hdigits : IsLeading digits.toList) (hn : n ≠ 0)
    (hlt : n < digits.length) (hexponent : ∀ e ∈ exponent, IsDigits e.2) :
    ∃ m : Numeral, m.IsFractional ∧
      signChars negative ++ ((placePoint digits n).toList ++ exponentChars exponent) = m.chars := by
  have hlength : n < digits.toList.length := by rwa [String.length_toList]
  have hdrop : digits.toList.drop n ≠ [] := mt List.drop_eq_nil_iff.1 (Nat.not_le_of_lt hlength)
  refine ⟨⟨negative, digits.toList.take n, digits.toList.drop n, exponent⟩,
    .of_leading (hdigits.take hn) (fun c hc => hdigits.digits.2 c (List.mem_of_mem_drop hc)) hexponent
      (.inl hdrop), ?_⟩
  rw [toList_placePoint hn hlt, Numeral.chars, List.append_assoc]

theorem exists_numeral_whole {digits : String} (negative : Bool) (h : IsLeading digits.toList) (k : Nat) :
    ∃ m : Numeral, m.IsFractional ∧
      signChars negative ++ (placePoint digits (digits.length + (k : Int)) ++ ".0").toList = m.chars := by
  have hsome : digits.length ≠ 0 := by
    rw [← String.length_toList]
    exact mt List.length_eq_zero_iff.1 h.digits.1
  have hplace : placePoint digits (digits.length + (k : Int)) = digits ++ zeros k := by
    rw [placePoint, if_neg (by omega), ← Int.natCast_add, Int.toNat_natCast,
      if_pos (Nat.le_add_right _ _), Nat.add_sub_cancel_left]
  rw [hplace]
  refine ⟨⟨negative, digits.toList ++ (zeros k).toList, ['0'], none⟩,
    .of_leading (h.append isDigit_of_mem_zeros) (by simp) (by simp) (.inl (by simp)), ?_⟩
  simp [Numeral.chars, fractionChars, exponentChars]

theorem exists_numeral_small {digits : String} (negative : Bool) (h : IsLeading digits.toList) {point : Int}
    (hpoint : point ≤ 0) :
    ∃ m : Numeral, m.IsFractional ∧ signChars negative ++ (placePoint digits point).toList = m.chars := by
  rw [placePoint, if_pos hpoint]
  generalize (-point).toNat = k
  have hne : (zeros k).toList ++ digits.toList ≠ [] := by simp [h.digits.1]
  refine ⟨⟨negative, ['0'], (zeros k).toList ++ digits.toList, none⟩,
    .of_zero ⟨hne, fun c hc => ?_⟩, ?_⟩
  · exact (List.mem_append.1 hc).elim (isDigit_of_mem_zeros c) (h.digits.2 c)
  · simp [Numeral.chars, fractionChars_of_ne_nil hne, exponentChars]

theorem exists_numeral_exponent {digits : String} (negative : Bool) (h : IsLeading digits.toList) (e : Int) :
    ∃ m : Numeral, m.IsFractional ∧ signChars negative ++
      ((if digits.length = 1 then digits else placePoint digits 1) ++ "e" ++ toString e).toList = m.chars := by
  have hsome : digits.length ≠ 0 := by
    rw [← String.length_toList]
    exact mt List.length_eq_zero_iff.1 h.digits.1
  have hexponent : ∀ d ∈ some (decide (e < 0), (toString e.natAbs).toList), IsDigits d.2 := by
    rintro d ⟨⟩
    exact isDigits_toString _
  by_cases hone : digits.length = 1
  · rw [if_pos hone]
    refine ⟨⟨negative, digits.toList, [], _⟩, .of_leading h (by simp) hexponent (.inr (by simp)), ?_⟩
    simp [Numeral.chars, fractionChars, exponentChars, toList_repr_int]
  · rw [if_neg hone]
    have hresult := exists_numeral_placePoint negative _ h Nat.one_ne_zero (by omega) hexponent
    simpa [exponentChars, toList_repr_int] using hresult

theorem exists_numeral (b : Binary) : ∃ n : Numeral, n.IsFractional ∧ (scientific b).toList = n.chars := by
  have hsign : (if b.negative then "-" else "").toList = signChars b.negative := by
    cases b.negative <;> rfl
  rw [scientific, String.toList_append, hsign]
  by_cases hzero : b.shortest.digits = 0
  · rw [if_pos hzero]
    exact ⟨⟨b.negative, ['0'], ['0'], none⟩, .of_zero ⟨by simp, by simp⟩, rfl⟩
  have hdigits := isLeading_toString hzero
  generalize toString b.shortest.digits = digits at hdigits ⊢
  generalize b.shortest.exponent = exponent
  rw [if_neg hzero]
  by_cases hwhole : 0 ≤ exponent ∧ digits.length + exponent ≤ 16
  · rw [if_pos hwhole]
    obtain ⟨k, rfl⟩ := Int.eq_ofNat_of_zero_le hwhole.1
    exact exists_numeral_whole b.negative hdigits k
  rw [if_neg hwhole]
  by_cases hplain : -5 < digits.length + exponent ∧ digits.length + exponent ≤ 16
  · rw [if_pos hplain]
    by_cases hpoint : digits.length + exponent ≤ 0
    · exact exists_numeral_small b.negative hdigits hpoint
    · obtain ⟨n, hn⟩ := Int.eq_ofNat_of_zero_le (a := digits.length + exponent) (by omega)
      rw [hn]
      have hresult := exists_numeral_placePoint b.negative none (n := n) hdigits (by omega)
        (by omega) (by simp)
      simpa [exponentChars] using hresult
  rw [if_neg hplain]
  exact exists_numeral_exponent b.negative hdigits _

theorem exists_ofFloat? {x : Float} (h : x.isFinite) : ∃ b, Binary.ofFloat? x = some b := by
  have hbits : x.toBits = x.toModel.toBits := rfl
  have hfield : x.toBits.toNat / Nat.pow 2 52 % Nat.pow 2 11 ≠ 2047 := by
    intro hones
    rw [hbits] at hones
    have hexponent : @Float.Model.UnpackedFloat.unpackExponent Float.Model.Format.binary64
        x.toModel.toBits.toBitVec = -1#11 := by
      apply BitVec.eq_of_toNat_eq
      simpa [Float.Model.UnpackedFloat.unpackExponent, Nat.shiftRight_eq_div_pow] using hones
    have hunpack : x.toModel.unpack.isFinite = false := by
      delta Float.Model.unpack Float.Model.UnpackedFloat.unpack
      rw [if_pos hexponent]
      split <;> rfl
    have hfinite : x.toModel.unpack.isFinite = true := h
    rw [hunpack] at hfinite
    exact Bool.false_ne_true hfinite
  rw [Binary.ofFloat?]
  simp only [if_neg hfield]
  split
  · exact ⟨_, rfl⟩
  · exact ⟨_, rfl⟩

end Decimal

namespace Json

open Decimal Numeral

theorem isNumberChar_of_isDigit {c : Char} (h : c.isDigit) : isNumberChar c := by
  rw [isNumberChar, h]
  rfl

theorem isNumberChar_of_mem_sign {negative : Bool} {c : Char} (h : c ∈ signChars negative) :
    isNumberChar c := by
  cases negative with
  | true =>
      rw [List.mem_singleton.1 h]
      rfl
  | false => cases h

theorem isNumberChar_chars {n : Numeral} (h : n.WellFormed) : ∀ c ∈ n.chars, isNumberChar c := by
  obtain ⟨negative, whole, fraction, exponent⟩ := n
  obtain ⟨hwhole, -, hfraction, hexponent⟩ := h
  intro c hc
  rcases List.mem_append.1 hc with hc | hc
  · exact isNumberChar_of_mem_sign hc
  rcases List.mem_append.1 hc with hc | hc
  · exact isNumberChar_of_isDigit (hwhole.2 c hc)
  rcases List.mem_append.1 hc with hc | hc
  · cases fraction with
    | nil => cases hc
    | cons d ds =>
        rcases List.mem_cons.1 hc with rfl | hc
        · rfl
        · exact isNumberChar_of_isDigit (hfraction c hc)
  · rcases exponent with _ | ⟨below, digits⟩
    · cases hc
    · rcases List.mem_cons.1 hc with rfl | hc
      · rfl
      · rcases List.mem_append.1 hc with hc | hc
        · exact isNumberChar_of_mem_sign hc
        · exact isNumberChar_of_isDigit ((hexponent _ rfl).2 c hc)

theorem exists_chars_eq {n : Numeral} (h : n.WellFormed) :
    ∃ c cs, n.chars = c :: cs ∧ (c.isDigit ∨ c = '-') := by
  obtain ⟨d, ds, hwhole⟩ := List.exists_cons_of_ne_nil h.whole.1
  rw [Numeral.chars]
  cases n.negative with
  | true => exact ⟨'-', _, rfl, .inr rfl⟩
  | false =>
      rw [hwhole]
      exact ⟨d, _, rfl, .inl (h.whole.2 d (hwhole ▸ List.mem_cons_self))⟩

/-- What a reader makes of the numeral of a double, if that is in range. -/
def reread? (x : Float) : Option Float :=
  ((readNumber? (Number.float x).render.toList).bind Prod.fst).map Number.toFloat

theorem exists_numeral_float {x : Float} (h : x.isFinite) :
    ∃ m : Numeral, m.WellFormed ∧ (Number.float x).render.toList = m.chars ∧
      readNumber? m.chars = some ((reread? x).map .float, []) := by
  obtain ⟨b, hb⟩ := exists_ofFloat? h
  obtain ⟨m, hm, hchars⟩ := exists_numeral b
  obtain ⟨y, hy⟩ := exists_readNumber?_chars hm.toWellFormed hm.fractional
  have hrender : (Number.float x).render.toList = m.chars := by
    rw [Number.render, hb]
    exact hchars
  refine ⟨m, hm.toWellFormed, hrender, ?_⟩
  rw [reread?, hrender, hy]
  cases y <;> rfl

end Json

end DesignCompiler

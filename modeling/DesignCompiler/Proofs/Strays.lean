import Mathlib.Data.List.Forall2
import Mathlib.Data.List.TakeWhile
import DesignCompiler.Proofs.Prologs

namespace DesignCompiler.Assets

def fitName : String := "preserveAspectRatio"

def fitText : List Char := " preserveAspectRatio=\"none\"".toList

end DesignCompiler.Assets

namespace DesignCompiler.Xml

open Assets

variable {α : Type} {rest s s' r u w mark : List Char} {f g : List Char → Option (List Char)}

/-- The first text has `<svg` somewhere before this rest, and the second one the attribute in between. -/
def Stretched (rest s s' : List Char) : Prop :=
  ∃ u, s = u ++ tag ("vg".toList ++ rest) ∧ s' = u ++ tag ("vg".toList ++ (fitText ++ rest))

/-- What is read of one text and of the other are in a relation. -/
def Leads {β : Type} (rest : List Char) (P : β → β → Prop) (f : List Char → Option β) : Prop :=
  ∀ s s' b b', Stretched rest s s' → f s = some b → f s' = some b' → P b b'

/-- A reader comes out before the attribute in both texts, or behind it at the same place. -/
def Rejoins (rest : List Char) (f : List Char → Option (List Char)) : Prop :=
  Leads rest (fun r r' => r = r' ∨ Stretched rest r r') f

/-- As before, but the reader of the second text may also come out at the value of the attribute, if it took
the quote in front of that for one that closes. -/
def Strays (rest : List Char) (f : List Char → Option (List Char)) : Prop :=
  Leads rest (fun r r' => r = r' ∨ Stretched rest r r' ∨ r'.head? = some 'n') f

def rest? (reader : List Char → Option (α × List Char)) (s : List Char) : Option (List Char) :=
  (reader s).map Prod.snd

theorem rest?_eq_some_iff {reader : List Char → Option (α × List Char)} :
    rest? reader s = some r ↔ ∃ a, reader s = some (a, r) := by
  simp [rest?]

theorem rest?_bind {β : Type} (reader : List Char → Option (α × List Char)) (p : List Char → Option β)
    (s : List Char) : (rest? reader s).bind p = (reader s).bind fun q => p q.2 := Option.bind_map

theorem rest?_eq_bind (reader : List Char → Option (α × List Char)) :
    rest? reader = fun s => (reader s).bind fun p => some p.2 :=
  funext fun _ => Option.map_eq_bind

/-- A reader that takes no `<`. -/
def IsFlat (f : List Char → Option (List Char)) : Prop :=
  ∀ s r, f s = some r → ∃ w, '<' ∉ w ∧ s = w ++ r

namespace IsFlat

theorem refl : IsFlat some := by
  rintro s _ ⟨⟩
  exact ⟨[], List.not_mem_nil, rfl⟩

theorem bind (hf : IsFlat f) (hg : IsFlat g) : IsFlat fun s => (f s).bind g := by
  intro s r h
  obtain ⟨m, hm, hr⟩ := Option.bind_eq_some_iff.1 h
  obtain ⟨v, hv, rfl⟩ := hf s m hm
  obtain ⟨w, hw, rfl⟩ := hg m r hr
  exact ⟨v ++ w, by simp [hv, hw], (List.append_assoc ..).symm⟩

theorem mono (hf : IsFlat f) (h : ∀ s r, g s = some r → f s = some r) : IsFlat g :=
  fun s r hr => hf s r (h s r hr)

theorem dropWhile {p : Char → Bool} (hp : p '<' = false) : IsFlat fun s => some (s.dropWhile p) := by
  rintro s _ ⟨⟩
  refine ⟨s.takeWhile p, fun hmem => ?_, List.takeWhile_append_dropWhile.symm⟩
  rw [List.mem_takeWhile_imp hmem] at hp
  cases hp

theorem afterSpaces (hf : IsFlat f) : IsFlat fun s => f (skipSpaces s) :=
  (dropWhile (p := isSpace) (by decide)).bind hf

theorem need? {mark : String} (h : '<' ∉ mark.toList) : IsFlat (need? mark) :=
  fun _ _ hr => ⟨mark.toList, h, need?_eq_some.1 hr⟩

theorem needSpaces? : IsFlat needSpaces? := by
  intro s r h
  cases s with
  | nil => cases h
  | cons c s =>
      rw [Xml.needSpaces?, Option.ite_none_right_eq_some] at h
      obtain ⟨w, hw, hs⟩ := dropWhile (p := isSpace) (by decide) s r h.2
      refine ⟨c :: w, ?_, congrArg (c :: ·) hs⟩
      rw [List.mem_cons, not_or]
      exact ⟨fun hc => absurd (hc ▸ h.1) (by decide), hw⟩

theorem takeName? : IsFlat (rest? takeName?) := by
  intro s r h
  obtain ⟨name, h⟩ := rest?_eq_some_iff.1 h
  cases s with
  | nil => cases h
  | cons c s =>
      rw [Xml.takeName?, Option.ite_none_right_eq_some] at h
      obtain ⟨hc, h⟩ := h
      cases h
      obtain ⟨w, hw, hs⟩ := dropWhile (p := isNameChar) (by decide) s _ rfl
      refine ⟨c :: w, ?_, congrArg (c :: ·) hs⟩
      rw [List.mem_cons, not_or]
      exact ⟨fun hlt => absurd (hlt ▸ hc) (by decide), hw⟩

theorem takeQName? : IsFlat (rest? takeQName?) := by
  let isPartChar (c : Char) := c != ':' && isNameChar c
  have hpart : isPartChar '<' = false := by decide
  intro s r h
  obtain ⟨name, h⟩ := rest?_eq_some_iff.1 h
  obtain ⟨v, hv, hs⟩ := dropWhile hpart s _ rfl
  unfold Xml.takeQName? at h
  dsimp only at h
  split at h
  · next m hm =>
    rw [hm] at hs
    rw [Option.ite_none_left_eq_some] at h
    obtain ⟨-, h⟩ := h
    cases h
    obtain ⟨w, hw, hm⟩ := dropWhile hpart m _ rfl
    refine ⟨v ++ ':' :: w, ?_, ?_⟩
    · simp [hv, hw]
    · rw [hs, List.append_assoc, List.cons_append, ← hm]
  · rw [Option.ite_none_right_eq_some] at h
    obtain ⟨-, h⟩ := h
    cases h
    exact ⟨v, hv, hs⟩

theorem takeAttribute? : IsFlat (rest? takeAttribute?) := by
  have heq : IsFlat fun s => Xml.need? "=" (skipSpaces s) := (need? (by decide)).afterSpaces
  intro s r h
  obtain ⟨raw, h⟩ := rest?_eq_some_iff.1 h
  simp only [Xml.takeAttribute?, Option.bind_eq_bind, Option.bind_eq_some_iff, Prod.exists,
    Option.ite_none_left_eq_some, takeQuote?_eq_some] at h
  obtain ⟨name, m, hname, m', hmark, quote, m'', ⟨hquote, hm'⟩, value, r', hvalue, hflat, h⟩ := h
  cases h
  obtain ⟨v, hv, rfl⟩ := takeQName? s m (rest?_eq_some_iff.2 ⟨name, hname⟩)
  obtain ⟨w, hw, rfl⟩ := heq m m' hmark
  obtain ⟨z, hz, hspaces⟩ := dropWhile (p := isSpace) (by decide) m' _ rfl
  have hmem : '<' ∉ quote :: (value ++ [quote]) := by
    rcases hquote with rfl | rfl <;> simpa using hflat
  refine ⟨v ++ (w ++ (z ++ quote :: (value ++ [quote]))), by simp [hv, hw, hz, hmem], ?_⟩
  rw [hspaces, ← skipSpaces, hm', eq_of_takeUntil? hvalue]
  simp

theorem ite {c : List Char → Bool} (hf : IsFlat f) (hg : IsFlat g) : IsFlat fun s => if c s then f s else g s := by
  intro s r h
  dsimp only at h
  split at h
  · exact hf s r h
  · exact hg s r h

theorem betweenParts? : IsFlat betweenParts? := by
  intro s r h
  unfold Xml.betweenParts? at h
  split at h
  · exact refl _ r h
  · exact refl _ r h
  · exact needSpaces? s r h

theorem skipPart? (name : String) : IsFlat (skipPart? name) := by
  refine ite ((takeAttribute?.bind betweenParts?).mono fun s r h => ?_) refl
  rwa [rest?, Option.bind_map]

theorem skipDeclaration? : IsFlat skipDeclaration? := by
  have hmark : IsFlat fun s => Xml.need? "?>" (skipSpaces s) := (need? (by decide)).afterSpaces
  have hend := (takeAttribute?.bind hmark).ite (c := "standalone".toList.isPrefixOf) (refl.bind hmark)
  refine (betweenParts?.bind ((skipPart? "version").bind ((skipPart? "encoding").bind hend))).mono fun s r h => ?_
  rw [Xml.skipDeclaration?, Option.bind_eq_bind] at h
  obtain ⟨m, hm, h⟩ := Option.bind_eq_some_iff.1 h
  refine Option.bind_eq_some_iff.2 ⟨m, hm, ?_⟩
  revert h
  cases "version".toList.isPrefixOf m with
  | false =>
    intro h
    cases h
  | true => exact id

end IsFlat

theorem exists_of_append_eq_append_tag {x : List Char} (hw : '<' ∉ w) (h : w ++ r = u ++ tag x) :
    ∃ v, u = w ++ v ∧ r = v ++ tag x := by
  rcases List.append_eq_append_iff.1 h with ⟨v, hu, hr⟩ | ⟨v, hwu, hx⟩
  · exact ⟨v, hu, hr⟩
  · cases v with
    | nil => exact ⟨[], by simpa using hwu.symm, by simpa using hx.symm⟩
    | cons c v =>
        obtain rfl : '<' = c := (List.cons.inj hx).1
        exact absurd (hwu ▸ by simp) hw

theorem isPrefix_of_isPrefix_append_tag {x : List Char} (hmark : ¬['<', 's'] <:+: mark ++ ['s'])
    (h : mark <+: u ++ tag x) : mark <+: u := by
  obtain ⟨z, hz⟩ := h
  rcases List.append_eq_append_iff.1 hz with ⟨v, hu, -⟩ | ⟨v, rfl, hx⟩
  · exact ⟨v, hu.symm⟩
  · rcases v with _ | ⟨c, _ | ⟨d, v⟩⟩ <;> cases hx
    · exact ⟨[], by simp⟩
    · exact absurd ⟨u, [], by simp⟩ hmark
    · exact absurd ⟨u, v ++ ['s'], by simp⟩ hmark

namespace Leads

variable {β : Type} {P : β → β → Prop} {p q : List Char → Option β}

theorem nothing : Leads rest P fun _ => none := nofun

theorem mono (hp : Leads rest P p) (h : ∀ s b, q s = some b → p s = some b) : Leads rest P q :=
  fun s s' b b' hs hb hb' => hp s s' b b' hs (h s b hb) (h s' b' hb')

theorem map {γ : Type} {Q : γ → γ → Prop} (hp : Leads rest P p) (f : β → γ) (hf : ∀ b b', P b b' → Q (f b) (f b')) :
    Leads rest Q fun s => (p s).bind fun b => some (f b) := by
  intro s s' _ _ h hc hc'
  obtain ⟨b, hb, heq⟩ := Option.bind_eq_some_iff.1 hc
  obtain ⟨b', hb', heq'⟩ := Option.bind_eq_some_iff.1 hc'
  cases heq
  cases heq'
  exact hf b b' (hp s s' b b' h hb hb')

theorem ite {c : List Char → Bool} (hc : IsSteady c) (hp : Leads rest P p) (hq : Leads rest P q) :
    Leads rest P fun s => if c s then p s else q s := by
  rintro _ _ b b' ⟨u, rfl, rfl⟩ hb hb'
  dsimp only at hb hb'
  rw [hc u _ ("vg".toList ++ rest)] at hb'
  split at hb
  · next hs =>
    rw [if_pos hs] at hb'
    exact hp _ _ b b' ⟨u, rfl, rfl⟩ hb hb'
  · next hs =>
    rw [if_neg hs] at hb'
    exact hq _ _ b b' ⟨u, rfl, rfl⟩ hb hb'

theorem afterSpaces (hp : Leads rest P p) : Leads rest P fun s => p (skipSpaces s) := by
  rintro _ _ b b' ⟨u, rfl, rfl⟩ hb hb'
  dsimp only at hb hb'
  rw [skipSpaces_append_tag] at hb hb'
  exact hp _ _ b b' ⟨skipSpaces u, rfl, rfl⟩ hb hb'

theorem after {n : Nat} (mark : List Char) (hn : mark.length = n) (hmark : ¬['<', 's'] <:+: mark ++ ['s'])
    (hp : Leads rest P p) (hq : Leads rest P q) :
    Leads rest P fun s => if mark.isPrefixOf s then p (s.drop n) else q s := by
  have hsteady : IsSteady mark.isPrefixOf :=
    isSteady_isPrefixOf mark fun h => hmark (h.trans (List.prefix_append mark ['s']).isInfix)
  have hdrop : Leads rest P fun s => if mark.isPrefixOf s then p (s.drop n) else none := by
    rintro _ _ b b' ⟨u, rfl, rfl⟩ hb hb'
    rw [Option.ite_none_right_eq_some] at hb hb'
    have hle := hn ▸ (isPrefix_of_isPrefix_append_tag hmark (List.isPrefixOf_iff_prefix.1 hb.1)).length_le
    rw [List.drop_append_of_le_length hle] at hb hb'
    exact hp _ _ b b' ⟨u.drop n, rfl, rfl⟩ hb.2 hb'.2
  refine (hdrop.ite hsteady hq).mono fun s b hb => ?_
  split
  · next hbegins => rwa [if_pos hbegins] at hb
  · next hbegins => rwa [if_neg hbegins] at hb

theorem bind (hf : Rejoins rest f) (hp : Leads rest P p) (hP : ∀ b, P b b) :
    Leads rest P fun s => (f s).bind p := by
  intro s s' b b' h hb hb'
  obtain ⟨m, hm, hb⟩ := Option.bind_eq_some_iff.1 hb
  obtain ⟨m', hm', hb'⟩ := Option.bind_eq_some_iff.1 hb'
  rcases hf s s' m m' h hm hm' with rfl | h
  · obtain rfl := Option.some.inj (hb.symm.trans hb')
    exact hP b
  · exact hp m m' b b' h hb hb'

theorem bind_strays (hf : Strays rest f) (hp : Leads rest P p) (hP : ∀ b, P b b)
    (hvalue : ∀ s b, p ('n' :: s) = some b → ∀ a, P a b) : Leads rest P fun s => (f s).bind p := by
  intro s s' b b' h hb hb'
  obtain ⟨m, hm, hb⟩ := Option.bind_eq_some_iff.1 hb
  obtain ⟨m', hm', hb'⟩ := Option.bind_eq_some_iff.1 hb'
  rcases hf s s' m m' h hm hm' with rfl | h | h
  · obtain rfl := Option.some.inj (hb.symm.trans hb')
    exact hP b
  · exact hp m m' b b' h hb hb'
  · obtain ⟨z, rfl⟩ := List.head?_eq_some_iff.1 h
    exact hvalue z b' hb' b

end Leads

namespace Rejoins

theorem refl : Rejoins rest some := by
  rintro s s' _ _ h ⟨⟩ ⟨⟩
  exact .inr h

theorem bind (hf : Rejoins rest f) (hg : Rejoins rest g) : Rejoins rest fun s => (f s).bind g :=
  Leads.bind hf hg fun _ => .inl rfl

theorem bind_strays (hf : Strays rest f) (hg : Rejoins rest g) (hvalue : ∀ s, g ('n' :: s) = none) :
    Rejoins rest fun s => (f s).bind g :=
  Leads.bind_strays hf hg (fun _ => .inl rfl) fun s _ hb => nomatch (hvalue s).symm.trans hb

theorem strays (hf : Rejoins rest f) : Strays rest f := fun s s' r r' h hr hr' =>
  (hf s s' r r' h hr hr').imp_right .inl

end Rejoins

/-- What is read before a tag does not depend on the tag, and ends before it. -/
theorem eq_of_flat {reader : List Char → Option (α × List Char)} {a a' : α} {r' x y : List Char}
    (hlocal : ∀ a, IsLocal fun s r => reader s = some (a, r)) (hr : reader (u ++ tag x) = some (a, r))
    (hw : '<' ∉ w) (hs : u ++ tag x = w ++ r) (hr' : reader (u ++ tag y) = some (a', r')) :
    a = a' ∧ ∃ v, r = v ++ tag x ∧ r' = v ++ tag y := by
  obtain ⟨v, rfl, rfl⟩ := exists_of_append_eq_append_tag hw hs.symm
  have hsame := (hlocal a _ _ hr).2 (w ++ v) v x y rfl rfl
  obtain ⟨rfl, rfl⟩ := Prod.mk.inj (Option.some.inj (hr'.symm.trans hsame))
  exact ⟨rfl, v, rfl, rfl⟩

theorem Rejoins.of_isFlat (hlocal : IsLocal fun s r => f s = some r) (hflat : IsFlat f) : Rejoins rest f := by
  rintro _ _ r r' ⟨u, rfl, rfl⟩ hr hr'
  obtain ⟨w, hw, hs⟩ := hflat _ r hr
  obtain ⟨v, rfl, rfl⟩ := exists_of_append_eq_append_tag hw hs.symm
  have hsame := (hlocal _ _ hr).2 (w ++ v) v _ ("vg".toList ++ (fitText ++ rest)) rfl rfl
  exact .inr ⟨v, rfl, Option.some.inj (hr'.symm.trans hsame)⟩

theorem Leads.bind_of_isFlat {β : Type} {P : β → β → Prop} {reader : List Char → Option (α × List Char)}
    {p : α → List Char → Option β} (hlocal : ∀ a, IsLocal fun s r => reader s = some (a, r))
    (hflat : IsFlat (rest? reader)) (hp : ∀ a, Leads rest P (p a)) :
    Leads rest P fun s => (reader s).bind fun q => p q.1 q.2 := by
  rintro _ _ b b' ⟨u, rfl, rfl⟩ hb hb'
  obtain ⟨⟨a, m⟩, hm, hb⟩ := Option.bind_eq_some_iff.1 hb
  obtain ⟨⟨a', m'⟩, hm', hb'⟩ := Option.bind_eq_some_iff.1 hb'
  obtain ⟨w, hw, hs⟩ := hflat _ m (rest?_eq_some_iff.2 ⟨a, hm⟩)
  obtain ⟨rfl, v, rfl, rfl⟩ := eq_of_flat hlocal hm hw hs hm'
  exact hp a _ _ b b' ⟨v, rfl, rfl⟩ hb hb'

def skipPast? (c : Char) (s : List Char) : Option (List Char) := (s.dropWhile (· != c)).tail?

section

variable {c : Char}

theorem exists_skipPast?_append (h : c ∈ u) : ∃ v, ∀ s, skipPast? c (u ++ s) = some (v ++ s) := by
  obtain ⟨front, v, rfl, hfront⟩ := List.eq_append_cons_of_mem h
  have hall : ∀ d ∈ front, (d != c) = true := fun d hd => bne_iff_ne.2 fun hdc => hfront (hdc ▸ hd)
  refine ⟨v, fun s => ?_⟩
  rw [skipPast?, List.append_assoc, List.dropWhile_append_of_pos hall]
  simp

theorem skipPast?_append (h : c ∉ u) (s : List Char) : skipPast? c (u ++ s) = skipPast? c s := by
  have hall : ∀ d ∈ u, (d != c) = true := fun d hd => bne_iff_ne.2 fun hdc => h (hdc ▸ hd)
  rw [skipPast?, List.dropWhile_append_of_pos hall, skipPast?]

theorem rejoins_skipPast? (hc : c ∉ tag ("vg".toList ++ fitText)) : Rejoins rest (skipPast? c) := by
  rintro _ _ r r' ⟨u, rfl, rfl⟩ hr hr'
  by_cases hu : c ∈ u
  · obtain ⟨v, hv⟩ := exists_skipPast?_append hu
    rw [hv] at hr hr'
    cases hr
    cases hr'
    exact .inr ⟨v, rfl, rfl⟩
  · have hmark : c ∉ tag "vg".toList := fun h => hc (List.mem_append_left fitText h)
    have hfirst : skipPast? c (u ++ tag ("vg".toList ++ rest)) = skipPast? c rest := by
      rw [skipPast?_append hu]
      exact skipPast?_append hmark rest
    have hsecond : skipPast? c (u ++ tag ("vg".toList ++ (fitText ++ rest))) = skipPast? c rest := by
      rw [skipPast?_append hu]
      exact skipPast?_append hc rest
    rw [hfirst] at hr
    rw [hsecond] at hr'
    exact .inl (Option.some.inj (hr.symm.trans hr'))

end

theorem rest?_takeQuoted? (s : List Char) :
    rest? takeQuoted? s = (takeQuote? s).bind fun p => skipPast? p.1 p.2 := by
  rw [rest?, takeQuoted?, Option.bind_eq_bind, Option.map_bind]
  refine Option.bind_congr fun p _ => ?_
  obtain ⟨quote, m⟩ := p
  dsimp only [Function.comp_apply, skipPast?]
  cases m.dropWhile (· != quote) <;> rfl

theorem strays_takeQuoted? : Strays rest (rest? takeQuoted?) := by
  rintro _ _ r r' ⟨u, rfl, rfl⟩ hr hr'
  rw [rest?_takeQuoted?] at hr hr'
  obtain ⟨⟨c, m⟩, hquote, hr⟩ := Option.bind_eq_some_iff.1 hr
  obtain ⟨hc, hs⟩ := takeQuote?_eq_some.1 hquote
  cases u with
  | nil => rcases hc with rfl | rfl <;> cases hs
  | cons d u =>
      obtain ⟨rfl, hm⟩ := List.cons.inj hs
      obtain rfl : u ++ tag ("vg".toList ++ rest) = m := hm
      have hquote' (x : List Char) : takeQuote? (d :: u ++ tag x) = some (d, u ++ tag x) :=
        takeQuote?_eq_some.2 ⟨hc, rfl⟩
      rw [hquote', Option.bind_some] at hr'
      dsimp only at hr hr'
      rcases hc with rfl | rfl
      · by_cases hu : '"' ∈ u
        · obtain ⟨v, hv⟩ := exists_skipPast?_append hu
          rw [hv] at hr hr'
          cases hr
          cases hr'
          exact .inr (.inl ⟨v, rfl, rfl⟩)
        · rw [skipPast?_append hu] at hr'
          cases hr'
          exact .inr (.inr rfl)
      · exact (rejoins_skipPast? (by decide)).strays _ _ r r' ⟨u, rfl, rfl⟩ hr hr'

theorem takeUntil?_of_not_mark {c d : Char} (hne : c ≠ d) (hchar : isChar d) (s : List Char) :
    rest? (takeUntil? (c :: mark)) (d :: s) = rest? (takeUntil? (c :: mark)) s := by
  have hnot : (c :: mark).isPrefixOf (d :: s) = false := by simp [List.isPrefixOf, hne]
  rw [rest?, takeUntil?, hnot, if_neg Bool.false_ne_true, if_pos hchar, Option.map_map]
  rfl

theorem takeUntil?_append_of_not_mark {c : Char} (h : ∀ d ∈ w, isChar d) (hc : c ∉ w) (s : List Char) :
    rest? (takeUntil? (c :: mark)) (w ++ s) = rest? (takeUntil? (c :: mark)) s := by
  induction w with
  | nil => rfl
  | cons d w ih =>
      rw [List.forall_mem_cons] at h
      rw [List.mem_cons, not_or] at hc
      rw [List.cons_append, takeUntil?_of_not_mark hc.1 h.1, ih h.2 hc.2]

theorem isChar_of_mem_fitText : ∀ d ∈ tag ("vg".toList ++ fitText), isChar d := by
  have hall : (tag ("vg".toList ++ fitText)).all isChar := by decide
  exact List.all_eq_true.1 hall

/-- A mark that does not begin in the attribute is found before it or behind it. -/
theorem rejoins_takeUntil? {c : Char} (hlt : '<' ∉ c :: mark) (hc : c ∉ tag ("vg".toList ++ fitText)) :
    Rejoins rest (rest? (takeUntil? (c :: mark))) := by
  rintro _ _ r r' ⟨u, rfl, rfl⟩ hr hr'
  induction u with
  | nil =>
      have hfirst : rest? (takeUntil? (c :: mark)) (tag ("vg".toList ++ rest)) = rest? (takeUntil? (c :: mark)) rest :=
        takeUntil?_append_of_not_mark (w := tag "vg".toList)
          (fun d hd => isChar_of_mem_fitText d (List.mem_append_left fitText hd))
          (fun hd => hc (List.mem_append_left fitText hd)) rest
      have hsecond : rest? (takeUntil? (c :: mark)) (tag ("vg".toList ++ (fitText ++ rest))) =
          rest? (takeUntil? (c :: mark)) rest :=
        takeUntil?_append_of_not_mark (w := tag ("vg".toList ++ fitText)) isChar_of_mem_fitText hc rest
      exact .inl (Option.some.inj (hr.symm.trans (hfirst.trans (hsecond.symm.trans hr'))))
  | cons d u ih =>
      have hstep (x : List Char) : rest? (takeUntil? (c :: mark)) (d :: u ++ tag x) =
          if (c :: mark).isPrefixOf (d :: u) then some ((d :: u).drop (c :: mark).length ++ tag x)
          else if isChar d then rest? (takeUntil? (c :: mark)) (u ++ tag x) else none := by
        rw [rest?, List.cons_append, takeUntil?, ← List.cons_append, isPrefixOf_append_tag_of_notMem hlt]
        split
        · next hbegins =>
          have hlength := (List.isPrefixOf_iff_prefix.1 hbegins).length_le
          rw [List.drop_append_of_le_length hlength]
          rfl
        · split
          · rw [Option.map_map]
            rfl
          · rfl
      rw [hstep] at hr hr'
      split at hr
      · next hbegins =>
        rw [if_pos hbegins] at hr'
        cases hr
        cases hr'
        exact .inr ⟨_, rfl, rfl⟩
      · next hbegins =>
        rw [if_neg hbegins] at hr'
        rw [Option.ite_none_right_eq_some] at hr hr'
        exact ih hr.2 hr'.2

theorem rejoins_rest? {reader : List Char → Option (α × List Char)}
    (hlocal : ∀ a, IsLocal fun s r => reader s = some (a, r)) (hflat : IsFlat (rest? reader)) :
    Rejoins rest (rest? reader) :=
  .of_isFlat ((IsLocal.iExists hlocal).of_iff fun _ _ => rest?_eq_some_iff) hflat

theorem rejoins_takeName? : Rejoins rest (rest? takeName?) := rejoins_rest? isLocal_takeName? .takeName?

theorem rejoins_needSpaces? : Rejoins rest needSpaces? := .of_isFlat isLocal_needSpaces? .needSpaces?

theorem rejoins_need? {mark : String} (h : '<' ∉ mark.toList) : Rejoins rest (need? mark) :=
  .of_isFlat (isLocal_need? mark) (.need? h)

theorem rejoins_skipComment? : Rejoins rest skipComment? := by
  have huntil : Rejoins rest (rest? (takeUntil? ['-', '-', '>'])) :=
    rejoins_takeUntil? (by decide) (by decide)
  refine huntil.mono fun s r h => ?_
  rw [skipComment?, Option.bind_eq_bind, Option.bind_eq_some_iff] at h
  obtain ⟨⟨text, m⟩, htext, h⟩ := h
  rw [Option.ite_none_left_eq_some] at h
  rw [rest?, htext]
  exact h.2

theorem rejoins_skipInstruction? : Rejoins rest skipInstruction? := by
  have htext : Rejoins rest (rest? (takeUntil? ['?', '>'])) :=
    rejoins_takeUntil? (by decide) (by decide)
  refine (rejoins_takeName?.bind htext.afterSpaces).mono fun s r h => ?_
  rw [skipInstruction?] at h
  revert h
  cases "xml ".toList.isPrefixOf s with
  | true =>
    intro h
    cases h
  | false =>
      intro h
      obtain ⟨⟨name, m⟩, hname, h⟩ := Option.bind_eq_some_iff.1 h
      obtain ⟨⟨text, m'⟩, htext, h⟩ := Option.bind_eq_some_iff.1 h
      cases h
      rw [rest?, hname, Option.map_some, Option.bind_some, rest?, htext]
      rfl

theorem strays_skipExternal? : Strays rest (rest? skipExternal?) := by
  have hquoted : Strays rest fun s => (needSpaces? s).bind (rest? takeQuoted?) :=
    Leads.bind rejoins_needSpaces? strays_takeQuoted? fun _ => .inl rfl
  have hsystem : Rejoins rest fun s => (rest? takeQuoted? s).bind needSpaces? :=
    .bind_strays strays_takeQuoted? rejoins_needSpaces? fun _ => rfl
  have hpublic : Strays rest fun s => (needSpaces? s).bind fun s => ((rest? takeQuoted? s).bind needSpaces?).bind
      (rest? takeQuoted?) :=
    Leads.bind rejoins_needSpaces? (Leads.bind hsystem strays_takeQuoted? fun _ => .inl rfl) fun _ => .inl rfl
  refine (hquoted.after "SYSTEM".toList (n := 6) (by decide) (by decide)
    (hpublic.after "PUBLIC".toList (n := 6) (by decide) (by decide) Rejoins.refl.strays)).mono fun s r h => ?_
  rw [rest?, skipExternal?] at h
  simp only [Option.bind_eq_bind, Option.pure_def, apply_ite (Option.map Prod.snd), Option.map_bind,
    Function.comp_def, Option.map_some] at h
  simpa only [rest?_eq_bind, Option.bind_assoc, Option.bind_some] using h

theorem strays_takeDefinition? (general : Bool) : Strays rest (rest? (takeDefinition? general)) := by
  have hquote : IsSteady fun s => ['"'].isPrefixOf s || ['\''].isPrefixOf s :=
    (isSteady_isPrefixOf _ (by decide)).or (isSteady_isPrefixOf _ (by decide))
  have hname : Rejoins rest fun s => (needSpaces? s).bind (rest? takeName?) :=
    rejoins_needSpaces?.bind rejoins_takeName?
  have hunparsed := (hname.after "NDATA".toList (n := 5) (by decide) (by decide) .nothing).afterSpaces
  have hsteady : IsSteady fun s => general && "NDATA".toList.isPrefixOf (skipSpaces s) := fun u x y =>
    congrArg (general && ·) ((isSteady_isPrefixOf "NDATA".toList (by decide)).afterSpaces u x y)
  have hend : Strays rest fun s => if general && "NDATA".toList.isPrefixOf (skipSpaces s) then
      if "NDATA".toList.isPrefixOf (skipSpaces s) then
        (needSpaces? ((skipSpaces s).drop 5)).bind (rest? takeName?) else none else some s :=
    Rejoins.strays (hunparsed.ite hsteady Rejoins.refl)
  have hexternal := Leads.bind_strays strays_skipExternal? hend (fun _ => .inl rfl) fun s r hr _ => by
    have hnot : "NDATA".toList.isPrefixOf (skipSpaces ('n' :: s)) = false := rfl
    rw [hnot, Bool.and_false, if_neg Bool.false_ne_true] at hr
    cases hr
    exact .inr (.inr rfl)
  refine (strays_takeQuoted?.ite hquote hexternal).mono fun s r h => ?_
  rw [rest?, takeDefinition?.eq_def] at h
  split at h
  · rwa [Option.map_map] at h
  · rwa [Option.map_map] at h
  · next hdouble hsingle =>
    have hdouble : ['"'].isPrefixOf s = false := isPrefixOf_eq_false hdouble
    have hsingle : ['\''].isPrefixOf s = false := isPrefixOf_eq_false hsingle
    rw [hdouble, hsingle, Bool.or_self, if_neg Bool.false_ne_true, rest?_bind]
    rw [Option.bind_eq_bind, Option.map_bind] at h
    obtain ⟨⟨external, m⟩, hexternal, h⟩ := Option.bind_eq_some_iff.1 h
    rw [hexternal, Option.bind_some]
    cases external with
    | false => cases h
    | true =>
        change Option.map Prod.snd (if general && "NDATA".toList.isPrefixOf (skipSpaces m) then _ else _) = _ at h
        dsimp only
        split
        · next hunparsed =>
          rw [if_pos hunparsed] at h
          rw [if_pos (Bool.and_eq_true_iff.1 hunparsed).2]
          simp only [Option.bind_eq_bind, Option.pure_def, Option.map_bind, Function.comp_def, Option.map_some] at h
          rw [rest?_eq_bind]
          exact h
        · next hunparsed =>
          rw [if_neg hunparsed] at h
          exact h

/-- Values that are the same, or of which both have a `<`. -/
def Alike (v v' : List Char) : Prop := v = v' ∨ '<' ∈ v ∧ '<' ∈ v'

/-- A value that has the attribute in it has a `<` before that. -/
theorem alike_takeQuoted? : Leads rest (fun p p' => Alike p.1 p'.1) takeQuoted? := by
  rintro _ _ ⟨v, r⟩ ⟨v', r'⟩ ⟨u, rfl, rfl⟩ hr hr'
  have hflat {s v r : List Char} (h : takeQuoted? s = some (v, r)) (hv : '<' ∉ v) : ∃ w, '<' ∉ w ∧ s = w ++ r := by
    obtain ⟨c, m, hquote, -, rfl⟩ := takeQuoted?_eq_some.1 h
    obtain ⟨hc, rfl⟩ := takeQuote?_eq_some.1 hquote
    refine ⟨c :: (v ++ [c]), ?_, rfl⟩
    rcases hc with rfl | rfl <;> simpa using hv
  by_cases hv : '<' ∈ v
  · by_cases hv' : '<' ∈ v'
    · exact .inr ⟨hv, hv'⟩
    · obtain ⟨w, hw, hs⟩ := hflat hr' hv'
      exact .inl (eq_of_flat isLocal_takeQuoted? hr' hw hs hr).1.symm
  · obtain ⟨w, hw, hs⟩ := hflat hr hv
    exact .inl (eq_of_flat isLocal_takeQuoted? hr hw hs hr').1

theorem quoted_or_external {general : Bool} {value : Option (List Char)}
    (h : takeDefinition? general s = some (value, r)) :
    (∃ v, value = some v ∧ takeQuoted? s = some (v, r)) ∨ value = none ∧ takeQuote? s = none := by
  rw [takeDefinition?.eq_def] at h
  split at h
  · obtain ⟨⟨v, m⟩, hv, heq⟩ := Option.map_eq_some_iff.1 h
    cases heq
    exact .inl ⟨v, rfl, hv⟩
  · obtain ⟨⟨v, m⟩, hv, heq⟩ := Option.map_eq_some_iff.1 h
    cases heq
    exact .inl ⟨v, rfl, hv⟩
  · next hdouble hsingle =>
    have hquote : takeQuote? s = none := by
      rw [Option.eq_none_iff_forall_ne_some]
      rintro ⟨c, m⟩ hquote
      obtain ⟨rfl | rfl, rfl⟩ := takeQuote?_eq_some.1 hquote
      · exact hdouble m rfl
      · exact hsingle m rfl
    obtain ⟨⟨external, m⟩, -, h⟩ := Option.bind_eq_some_iff.1 h
    refine .inr ⟨?_, hquote⟩
    cases external with
    | false => cases h
    | true =>
        change (if general && "NDATA".toList.isPrefixOf (skipSpaces m) then _ else _) = _ at h
        split at h
        · obtain ⟨m', -, h⟩ := Option.bind_eq_some_iff.1 h
          obtain ⟨p, -, h⟩ := Option.bind_eq_some_iff.1 h
          cases h
          rfl
        · cases h
          rfl

theorem alike_takeDefinition? (general : Bool) :
    Leads rest (fun p p' => List.Forall₂ Alike p.1.toList p'.1.toList) (takeDefinition? general) := by
  have hquote (u x y : List Char) (h : takeQuote? (u ++ tag x) = none) : takeQuote? (u ++ tag y) = none := by
    cases u with
    | nil => rfl
    | cons c u =>
        rw [Option.eq_none_iff_forall_ne_some] at h ⊢
        rintro ⟨d, m⟩ hd
        obtain ⟨hd, hu⟩ := takeQuote?_eq_some.1 hd
        obtain ⟨rfl, -⟩ := List.cons.inj hu
        exact h _ (takeQuote?_eq_some.2 ⟨hd, rfl⟩)
  have hsome {s v r : List Char} (h : takeQuoted? s = some (v, r)) : takeQuote? s ≠ none := by
    obtain ⟨c, m, hc, -⟩ := takeQuoted?_eq_some.1 h
    simp [hc]
  rintro s s' ⟨value, r⟩ ⟨value', r'⟩ h hr hr'
  rcases quoted_or_external hr with ⟨v, rfl, hv⟩ | ⟨rfl, hnone⟩ <;>
    rcases quoted_or_external hr' with ⟨v', rfl, hv'⟩ | ⟨rfl, hnone'⟩
  · exact .cons (alike_takeQuoted? s s' _ _ h hv hv') .nil
  · obtain ⟨u, rfl, rfl⟩ := h
    exact absurd (hquote u _ _ hnone') (hsome hv)
  · obtain ⟨u, rfl, rfl⟩ := h
    exact absurd (hquote u _ _ hnone) (hsome hv')
  · exact .nil

def AlikeEntities (e e' : Entities) : Prop := List.Forall₂ (fun p p' => p.1 = p'.1 ∧ Alike p.2 p'.2) e e'

theorem AlikeEntities.refl (e : Entities) : AlikeEntities e e :=
  List.forall₂_same.2 fun _ _ => ⟨rfl, .inl rfl⟩

theorem AlikeEntities.append {e e' f f' : Entities} (he : AlikeEntities e e') (hf : AlikeEntities f f') :
    AlikeEntities (e ++ f) (e' ++ f') := List.rel_append he hf

/-- The entities of both texts are alike, and what is left is at one place or has the attribute in it. -/
def Parallel (rest : List Char) (p p' : Entities × List Char) : Prop :=
  AlikeEntities p.1 p'.1 ∧ (p.2 = p'.2 ∨ Stretched rest p.2 p'.2)

theorem Parallel.refl (p : Entities × List Char) : Parallel rest p p := ⟨.refl p.1, .inl rfl⟩

theorem Leads.skip {p : List Char → Option (Entities × List Char)} (hp : Leads rest (Parallel rest) p)
    (hf : Rejoins rest f) : Leads rest (Parallel rest) fun s => (p s).bind fun q => (f q.2).map (Prod.mk q.1) := by
  intro s s' b b' h hb hb'
  obtain ⟨⟨e, m⟩, hm, hb⟩ := Option.bind_eq_some_iff.1 hb
  obtain ⟨⟨e', m'⟩, hm', hb'⟩ := Option.bind_eq_some_iff.1 hb'
  obtain ⟨r, hr, rfl⟩ := Option.map_eq_some_iff.1 hb
  obtain ⟨r', hr', rfl⟩ := Option.map_eq_some_iff.1 hb'
  obtain ⟨halike, hrest⟩ := hp s s' _ _ h hm hm'
  refine ⟨halike, ?_⟩
  rcases hrest with heq | h
  · obtain rfl : m = m' := heq
    exact .inl (Option.some.inj (hr.symm.trans hr'))
  · exact hf m m' r r' h hr hr'

theorem Rejoins.parallel (hf : Rejoins rest f) : Leads rest (Parallel rest) fun s => (f s).map (Prod.mk []) := by
  intro s s' b b' h hb hb'
  obtain ⟨r, hr, rfl⟩ := Option.map_eq_some_iff.1 hb
  obtain ⟨r', hr', rfl⟩ := Option.map_eq_some_iff.1 hb'
  exact ⟨.nil, hf s s' r r' h hr hr'⟩

def takeNamed? (general : Bool) (s : List Char) : Option (Entities × List Char) :=
  (takeName? s).bind fun p => (needSpaces? p.2).bind fun s => (takeDefinition? general s).bind fun d =>
    (need? ">" (skipSpaces d.2)).bind fun rest => some (d.1.toList.map fun v => (p.1, v), rest)

theorem takeEntity?_eq (s : List Char) : takeEntity? s = (needSpaces? s).bind fun s =>
    if ['%'].isPrefixOf s then (needSpaces? (s.drop 1)).bind (takeNamed? false) else takeNamed? true s := by
  rw [takeEntity?, Option.bind_eq_bind]
  refine Option.bind_congr fun m _ => ?_
  split
  · next m =>
    rw [if_pos (by rfl)]
    exact Option.bind_map ..
  · next hne =>
    have hnot : ['%'].isPrefixOf m = false := isPrefixOf_eq_false hne
    rw [hnot, if_neg Bool.false_ne_true]
    rfl

theorem parallel_takeNamed? (general : Bool) : Leads rest (Parallel rest) (takeNamed? general) := by
  have hend : Rejoins rest fun s => need? ">" (skipSpaces s) := (rejoins_need? (by decide)).afterSpaces
  have hdefinition (name : List Char) : Leads rest (Parallel rest) fun s => (takeDefinition? general s).bind fun d =>
      (need? ">" (skipSpaces d.2)).bind fun rest => some (d.1.toList.map fun v => (name, v), rest) := by
    intro s s' b b' h hb hb'
    obtain ⟨d, hd, hb⟩ := Option.bind_eq_some_iff.1 hb
    obtain ⟨d', hd', hb'⟩ := Option.bind_eq_some_iff.1 hb'
    obtain ⟨r, hr, heq⟩ := Option.bind_eq_some_iff.1 hb
    obtain ⟨r', hr', heq'⟩ := Option.bind_eq_some_iff.1 hb'
    cases heq
    cases heq'
    have halike := alike_takeDefinition? general s s' d d' h hd hd'
    refine ⟨?_, Rejoins.bind_strays (strays_takeDefinition? general) hend (fun _ => rfl) s s' r r' h ?_ ?_⟩
    · rw [AlikeEntities, List.forall₂_map_left_iff, List.forall₂_map_right_iff]
      exact halike.imp fun v v' hv => ⟨rfl, hv⟩
    · simpa only [rest?_bind, hd, Option.bind_some] using hr
    · simpa only [rest?_bind, hd', Option.bind_some] using hr'
  exact .bind_of_isFlat isLocal_takeName? .takeName? fun name =>
    .bind rejoins_needSpaces? (hdefinition name) .refl

theorem parallel_takeEntity? : Leads rest (Parallel rest) takeEntity? := by
  have hparameter : Leads rest (Parallel rest) fun s => (needSpaces? s).bind (takeNamed? false) :=
    .bind rejoins_needSpaces? (parallel_takeNamed? false) .refl
  refine (Leads.bind rejoins_needSpaces? (hparameter.after ['%'] (n := 1) rfl (by decide)
    (parallel_takeNamed? true)) .refl).mono fun s b hb => ?_
  rwa [takeEntity?_eq] at hb

theorem rejoins_skipMisc? (n : Nat) : Rejoins rest (skipMisc? n) := by
  induction n with
  | zero => exact Rejoins.refl
  | succ n ih =>
      have hinstruction := (rejoins_skipInstruction?.bind ih).after ['<', '?'] rfl (by decide) Rejoins.refl
      have hcomment := (rejoins_skipComment?.bind ih).after ['<', '!', '-', '-'] rfl (by decide) hinstruction
      exact hcomment.afterSpaces.mono fun s r h => by rwa [skipMisc?_succ] at h

/-- Fuel that depends on the text is enough for the other text too. -/
theorem Leads.of_fuel {β : Type} {P : β → β → Prop} {p : Nat → List Char → Option β} (hp : ∀ n, Leads rest P (p n))
    (hfuel : ∀ n s, s.length ≤ n → p n s = p s.length s) : Leads rest P fun s => p s.length s := by
  intro s s' b b' h hb hb'
  refine hp (max s.length s'.length) s s' b b' h ?_ ?_
  · rwa [hfuel _ s (Nat.le_max_left ..)]
  · rwa [hfuel _ s' (Nat.le_max_right ..)]

theorem rejoins_skipMisc : Rejoins rest fun s => skipMisc? s.length s :=
  Leads.of_fuel rejoins_skipMisc? fun _ s h => skipMisc?_of_le h s.length.le_refl

theorem parallel_takeSubset? (n : Nat) : Leads rest (Parallel rest) (takeSubset? n) := by
  induction n with
  | zero =>
      rintro s s' _ _ h ⟨⟩ ⟨⟩
      exact ⟨.nil, .inr h⟩
  | succ n ih =>
      have hdeclared : IsSteady fun s => "<!ELEMENT".toList.isPrefixOf s || "<!ATTLIST".toList.isPrefixOf s
          || "<!NOTATION".toList.isPrefixOf s :=
        ((isSteady_isPrefixOf _ (by decide)).or (isSteady_isPrefixOf _ (by decide))).or
          (isSteady_isPrefixOf _ (by decide))
      have hentity : Leads rest (Parallel rest) fun s => (takeEntity? s).bind fun p =>
          (takeSubset? n p.2).bind fun q => some (p.1 ++ q.1, q.2) := by
        intro s s' b b' h hb hb'
        obtain ⟨⟨e, m⟩, hm, hb⟩ := Option.bind_eq_some_iff.1 hb
        obtain ⟨⟨e', m'⟩, hm', hb'⟩ := Option.bind_eq_some_iff.1 hb'
        obtain ⟨q, hq, heq⟩ := Option.bind_eq_some_iff.1 hb
        obtain ⟨q', hq', heq'⟩ := Option.bind_eq_some_iff.1 hb'
        cases heq
        cases heq'
        obtain ⟨hfirst, hm⟩ := parallel_takeEntity? s s' _ _ h hm hm'
        have hmore : Parallel rest q q' := by
          rcases hm with heq | h
          · obtain rfl : m = m' := heq
            obtain rfl := Option.some.inj (hq.symm.trans hq')
            exact .refl q
          · exact ih m m' q q' h hq hq'
        exact ⟨hfirst.append hmore.1, hmore.2⟩
      have hend : Leads rest (Parallel rest) fun s => (need? ">" (skipSpaces s)).map fun rest => ([], rest) :=
        Rejoins.parallel (Leads.afterSpaces (rejoins_need? (by decide)))
      have hcomment : Leads rest (Parallel rest) fun s => (skipComment? s).bind (takeSubset? n) :=
        .bind rejoins_skipComment? ih .refl
      have hinstruction : Leads rest (Parallel rest) fun s => (skipInstruction? s).bind (takeSubset? n) :=
        .bind rejoins_skipInstruction? ih .refl
      have hmarkup : Leads rest (Parallel rest) fun s => (skipPast? '>' s).bind (takeSubset? n) :=
        .bind (rejoins_skipPast? (by decide)) ih .refl
      have hsubset := hentity.after "<!ENTITY".toList (n := 8) (by decide) (by decide) <| hmarkup.ite hdeclared <|
        hcomment.after ['<', '!', '-', '-'] rfl (by decide) <| hinstruction.after ['<', '?'] rfl (by decide) <|
        hend.after [']'] (n := 1) rfl (by decide) .nothing
      exact hsubset.afterSpaces.mono fun s b hb => by rwa [takeSubset?_succ] at hb

theorem parallel_takeSubset : Leads rest (Parallel rest) fun s => takeSubset? (s.length + 1) s :=
  .of_fuel (p := fun n => takeSubset? (n + 1)) (fun n => parallel_takeSubset? (n + 1)) fun _ s h =>
    takeSubset?_of_lt (Nat.lt_succ_of_le h) s.length.lt_succ_self

theorem parallel_takeDoctype? : Leads rest (Parallel rest) takeDoctype? := by
  have hend : Leads rest (Parallel rest) takeDoctypeEnd? := by
    have hempty : Leads rest (Parallel rest) fun s => (some s).map (Prod.mk []) := Rejoins.parallel .refl
    refine (hempty.after ['>'] (n := 1) rfl (by decide) (parallel_takeSubset.after ['['] (n := 1) rfl (by decide)
      .nothing)).mono fun s b hb => ?_
    rw [takeDoctypeEnd?.eq_def] at hb
    split at hb
    · exact hb
    · exact hb
    · cases hb
  have hexternal : Leads rest (Parallel rest) fun s => (rest? skipExternal? s).bind fun s =>
      takeDoctypeEnd? (skipSpaces s) :=
    .bind_strays strays_skipExternal? hend.afterSpaces .refl fun s b hb => nomatch hb
  have hname : Leads rest (Parallel rest) fun s => (rest? takeName? s).bind fun s =>
      (rest? skipExternal? (skipSpaces s)).bind fun s => takeDoctypeEnd? (skipSpaces s) :=
    .bind rejoins_takeName? hexternal.afterSpaces .refl
  refine (Leads.bind rejoins_needSpaces? hname .refl).mono fun s b hb => ?_
  simpa only [takeDoctype?_eq, rest?_bind] using hb

theorem parallel_takeProlog? : Leads rest (Parallel rest) takeProlog? := by
  have hempty : Leads rest (Parallel rest) fun s => (some s).map (Prod.mk []) := Rejoins.parallel .refl
  have hprolog := (parallel_takeDoctype?.skip rejoins_skipMisc).after "<!DOCTYPE".toList (n := 9) (by decide)
    (by decide) hempty
  refine (Leads.bind rejoins_skipMisc hprolog .refl).mono fun s b hb => ?_
  simpa only [takeProlog?, Option.bind_eq_bind, Option.pure_def, Option.map_eq_bind, Function.comp_def,
    Option.bind_some] using hb

theorem rejoins_declaration : Rejoins rest fun s =>
    if "<?xml ".toList.isPrefixOf s then skipDeclaration? (s.drop 5) else some s := by
  have hdeclaration : Rejoins rest skipDeclaration? := .of_isFlat isLocal_skipDeclaration? .skipDeclaration?
  have hmark := hdeclaration.after "<?xml".toList (n := 5) (by decide) (by decide) .nothing
  refine (hmark.ite (isSteady_isPrefixOf "<?xml ".toList (by decide)) Rejoins.refl).mono fun s r h => ?_
  split
  · next hbegins =>
    have hshort : "<?xml".toList.isPrefixOf s :=
      List.isPrefixOf_iff_prefix.2 (.trans (by decide) (List.isPrefixOf_iff_prefix.1 hbegins))
    rw [if_pos hbegins] at h
    rwa [if_pos hshort]
  · next hbegins => rwa [if_neg hbegins] at h

/-- What a document begins with, up to the tag of its root. -/
theorem parallel_takeStart? :
    Leads rest (Parallel rest) fun s => (takeStart? (.ofList s)).map fun p => (p.1, '<' :: p.2) := by
  have hroot : Rejoins rest fun s => some (skipSpaces s) := Leads.afterSpaces Rejoins.refl
  have hunmarked : Leads rest (Parallel rest) fun s => (unmarkedStart? s).map fun p => (p.1, '<' :: p.2) := by
    refine (Leads.bind rejoins_declaration (parallel_takeProlog?.skip hroot) .refl).mono fun s b hb => ?_
    rw [unmarkedStart?, Option.map_bind] at hb
    obtain ⟨m, hm, hb⟩ := Option.bind_eq_some_iff.1 hb
    rw [Function.comp_apply, Option.map_bind] at hb
    obtain ⟨⟨entities, m'⟩, hprolog, hb⟩ := Option.bind_eq_some_iff.1 hb
    rw [hm, Option.bind_some, hprolog, Option.bind_some]
    dsimp only [Function.comp_apply] at hb
    split at hb
    · next hroot =>
      rw [hroot]
      exact hb
    · cases hb
  refine (hunmarked.after ['\uFEFF'] (n := 1) rfl (by decide) hunmarked).mono fun s b hb => ?_
  rw [takeStart?_ofList] at hb
  cases s with
  | nil => exact hb
  | cons c s =>
      by_cases hc : c = '\uFEFF'
      · subst hc
        exact hb
      · have hnot : ['\uFEFF'].isPrefixOf (c :: s) = false := by simp [List.isPrefixOf, Ne.symm hc]
        rw [hnot, if_neg Bool.false_ne_true]
        rwa [if_neg (by simpa using hc)] at hb

theorem of_takeAttributes?_succ {n : Nat} {q : List RawAttribute × TagEnd × List Char} (hs : s ≠ [])
    (h : takeAttributes? (n + 1) s = some q) :
    (if ['/'].isPrefixOf (skipSpaces s) then
      (need? ">" ((skipSpaces s).drop 1)).bind fun rest => some ([], .emptyTag, rest)
    else if ['>'].isPrefixOf (skipSpaces s) then some ([], .openTag, (skipSpaces s).drop 1)
    else (takeAttribute? (skipSpaces s)).bind fun p =>
      (takeAttributes? n p.2).bind fun q => some (p.1 :: q.1, q.2)) = some q := by
  rw [takeAttributes?] at h
  · split at h
    · cases h
    · next rest hslash =>
      rw [hslash, if_pos (by rfl)]
      rwa [Option.map_eq_bind] at h
    · next rest hclose =>
      rw [hclose, if_neg (by simp), if_pos (by rfl)]
      exact h
    · next hslash hclose =>
      rw [isPrefixOf_eq_false hslash, isPrefixOf_eq_false hclose]
      rw [Option.ite_none_right_eq_some] at h
      exact h.2
  · exact hs

def SameTag (p p' : List RawAttribute × TagEnd × List Char) : Prop := p.1 = p'.1 ∧ p.2.1 = p'.2.1

theorem leads_takeAttributes? (n : Nat) : Leads rest SameTag (takeAttributes? n) := by
  induction n with
  | zero => exact .nothing
  | succ n ih =>
      have hends (f : List Char → Option (List Char)) (close : TagEnd) :
          Leads rest SameTag fun s => (f s).bind fun r => some ([], close, r) := by
        intro s s' b b' _ hb hb'
        obtain ⟨_, -, heq⟩ := Option.bind_eq_some_iff.1 hb
        obtain ⟨_, -, heq'⟩ := Option.bind_eq_some_iff.1 hb'
        cases heq
        cases heq'
        exact ⟨rfl, rfl⟩
      have hmore (first : RawAttribute) : Leads rest SameTag fun s =>
          (takeAttributes? n s).bind fun q => some (first :: q.1, q.2) :=
        ih.map (fun q => (first :: q.1, q.2)) fun _ _ h => ⟨congrArg (first :: ·) h.1, h.2⟩
      have hattributes : Leads rest SameTag fun s =>
          (takeAttribute? s).bind fun p => (takeAttributes? n p.2).bind fun q => some (p.1 :: q.1, q.2) :=
        .bind_of_isFlat isLocal_takeAttribute? .takeAttribute? hmore
      have hopen : Leads rest SameTag fun s => some ([], .openTag, s) := hends some .openTag
      have htag := ((hends (need? ">") .emptyTag).after ['/'] (n := 1) rfl (by decide)
        (hopen.after ['>'] (n := 1) rfl (by decide) hattributes)).afterSpaces
      rintro _ _ b b' ⟨u, rfl, rfl⟩ hb hb'
      have hne (x : List Char) : u ++ tag x ≠ [] := List.append_ne_nil_of_right_ne_nil u nofun
      exact htag _ _ b b' ⟨u, rfl, rfl⟩ (of_takeAttributes?_succ (hne _) hb) (of_takeAttributes?_succ (hne _) hb')

/-- A tag that ends has no `<` in it, so that it ends before what is put after one. -/
theorem leads_takeOpening? (n : Nat) : Leads rest (fun p p' => p.1 = p'.1) (takeOpening? n) := by
  have hnamed (name : QName) : Leads rest (fun p p' => p.1 = p'.1 ∧ SameTag p.2 p'.2) fun s =>
      (takeAttributes? n s).bind fun p => some (name, p) :=
    (leads_takeAttributes? n).map (Prod.mk name) fun _ _ h => ⟨rfl, h⟩
  have hread : Leads rest (fun p p' => p.1 = p'.1 ∧ SameTag p.2 p'.2) fun s =>
      (takeQName? s).bind fun q => (takeAttributes? n q.2).bind fun p => some (q.1, p) :=
    .bind_of_isFlat isLocal_takeQName? .takeQName? hnamed
  intro s s' b b' h hb hb'
  obtain ⟨⟨name, m⟩, hname, hb⟩ := Option.bind_eq_some_iff.1 hb
  obtain ⟨⟨raw, close, r⟩, hraw, hb⟩ := Option.bind_eq_some_iff.1 hb
  obtain ⟨⟨name', m'⟩, hname', hb'⟩ := Option.bind_eq_some_iff.1 hb'
  obtain ⟨⟨raw', close', r'⟩, hraw', hb'⟩ := Option.bind_eq_some_iff.1 hb'
  obtain ⟨hsame, hattributes, hclose⟩ := hread s s' (name, raw, close, r) (name', raw', close', r') h
    (by simp only [hname, hraw, Option.bind_some]) (by simp only [hname', hraw', Option.bind_some])
  obtain rfl : name = name' := hsame
  obtain rfl : raw = raw' := hattributes
  obtain rfl : close = close' := hclose
  cases close <;> cases hb <;> cases hb' <;> rfl

end DesignCompiler.Xml

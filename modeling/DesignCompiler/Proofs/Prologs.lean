import Mathlib.Data.List.Basic
import Mathlib.Data.List.Infix
import DesignCompiler.Xml.Document

namespace DesignCompiler.Xml

variable {α : Type} {u v x y s r : List Char}

/-- A tag whose name begins with this letter, and all after it. -/
def tag (x : List Char) : List Char := '<' :: 's' :: x

theorem dropWhile_append_tag {p : Char → Bool} (hp : p '<' = false) (u x : List Char) :
    (u ++ tag x).dropWhile p = u.dropWhile p ++ tag x := by
  induction u with
  | nil => simp [tag, hp]
  | cons c u ih =>
      rw [List.cons_append, List.dropWhile_cons, List.dropWhile_cons]
      split
      · exact ih
      · rfl

theorem takeWhile_append_tag {p : Char → Bool} (hp : p '<' = false) (u x : List Char) :
    (u ++ tag x).takeWhile p = u.takeWhile p := by
  induction u with
  | nil => simp [tag, hp]
  | cons c u ih =>
      rw [List.cons_append, List.takeWhile_cons, List.takeWhile_cons, ih]

theorem skipSpaces_append_tag (u x : List Char) : skipSpaces (u ++ tag x) = skipSpaces u ++ tag x :=
  dropWhile_append_tag (by decide) u x

theorem isPrefixOf_append_tag {mark : List Char} (h : ¬['<', 's'] <:+: mark) (u x y : List Char) :
    mark.isPrefixOf (u ++ tag x) = mark.isPrefixOf (u ++ tag y) := by
  induction u generalizing mark with
  | nil =>
      match mark with
      | [] => rfl
      | [c] => rfl
      | c :: d :: mark =>
          by_cases hc : c = '<' ∧ d = 's'
          · obtain ⟨rfl, rfl⟩ := hc
            exact absurd ⟨[], mark, rfl⟩ h
          · have hfalse (x : List Char) : (c :: d :: mark).isPrefixOf (tag x) = false := by
              rw [tag, List.isPrefixOf, List.isPrefixOf]
              by_cases hc' : c = '<'
              · have hd : d ≠ 's' := fun hd => hc ⟨hc', hd⟩
                simp [hd]
              · simp [hc']
            rw [List.nil_append, List.nil_append, hfalse, hfalse]
  | cons c u ih =>
      cases mark with
      | nil => rfl
      | cons d mark =>
          rw [List.cons_append, List.cons_append, List.isPrefixOf, List.isPrefixOf,
            ih fun hoccurs => h (hoccurs.trans (List.suffix_cons d mark).isInfix)]

/-- A test that comes out the same whatever the tag is. -/
def IsSteady (c : List Char → Bool) : Prop := ∀ u x y, c (u ++ tag x) = c (u ++ tag y)

theorem isSteady_isPrefixOf (mark : List Char) (h : ¬['<', 's'] <:+: mark) : IsSteady mark.isPrefixOf :=
  isPrefixOf_append_tag h

theorem IsSteady.or {c d : List Char → Bool} (hc : IsSteady c) (hd : IsSteady d) : IsSteady fun s => c s || d s :=
  fun u x y => congrArg₂ (· || ·) (hc u x y) (hd u x y)

theorem IsSteady.afterSpaces {c : List Char → Bool} (hc : IsSteady c) : IsSteady fun s => c (skipSpaces s) := by
  intro u x y
  dsimp only
  rw [skipSpaces_append_tag, skipSpaces_append_tag, hc _ x y]

theorem isPrefixOf_eq_false {mark : List Char} (h : ∀ rest, s ≠ mark ++ rest) : mark.isPrefixOf s = false := by
  rw [Bool.eq_false_iff]
  intro hbegins
  obtain ⟨rest, rfl⟩ := List.isPrefixOf_iff_prefix.1 hbegins
  exact h rest rfl

/-- From a text to the rest that is left after reading. The rest is an end of the text, and if it has the tag then the
same is read whatever the tag is. -/
def IsLocal (R : List Char → List Char → Prop) : Prop :=
  ∀ s r, R s r → r <:+ s ∧ ∀ u v x y, s = u ++ tag x → r = v ++ tag x → R (u ++ tag y) (v ++ tag y)

namespace IsLocal

variable {R S : List Char → List Char → Prop} {mark : List Char}

theorem refl : IsLocal fun s r => s = r := by
  rintro s _ rfl
  refine ⟨List.suffix_refl s, ?_⟩
  rintro u v x y rfl huv
  rw [List.append_cancel_right huv]

theorem comp (hR : IsLocal R) (hS : IsLocal S) : IsLocal fun s r => ∃ m, R s m ∧ S m r := by
  rintro s r ⟨m, hm, hr⟩
  obtain ⟨hsuffix, hlocal⟩ := hR s m hm
  obtain ⟨hsuffix', hlocal'⟩ := hS m r hr
  refine ⟨hsuffix'.trans hsuffix, ?_⟩
  rintro u v x y rfl rfl
  -- what is left in between has the tag too
  obtain ⟨w, rfl⟩ := hsuffix'
  rw [← List.append_assoc] at hm hr hlocal hlocal'
  exact ⟨_, hlocal u (w ++ v) x y rfl rfl, hlocal' (w ++ v) v x y rfl rfl⟩

theorem iExists {ι : Type} {R : ι → List Char → List Char → Prop} (h : ∀ i, IsLocal (R i)) :
    IsLocal fun s r => ∃ i, R i s r := by
  rintro s r ⟨i, hi⟩
  obtain ⟨hsuffix, hlocal⟩ := h i s r hi
  exact ⟨hsuffix, fun u v x y hu hv => ⟨i, hlocal u v x y hu hv⟩⟩

theorem or (hR : IsLocal R) (hS : IsLocal S) : IsLocal fun s r => R s r ∨ S s r := by
  rintro s r (h | h)
  · obtain ⟨hsuffix, hlocal⟩ := hR s r h
    exact ⟨hsuffix, fun u v x y hu hv => .inl (hlocal u v x y hu hv)⟩
  · obtain ⟨hsuffix, hlocal⟩ := hS s r h
    exact ⟨hsuffix, fun u v x y hu hv => .inr (hlocal u v x y hu hv)⟩

theorem and {P : Prop} (hR : P → IsLocal R) : IsLocal fun s r => P ∧ R s r := by
  rintro s r ⟨hP, h⟩
  obtain ⟨hsuffix, hlocal⟩ := hR hP s r h
  exact ⟨hsuffix, fun u v x y hu hv => ⟨hP, hlocal u v x y hu hv⟩⟩

theorem test {c : List Char → Bool} {P : Bool → Prop} (hc : IsSteady c) (hR : IsLocal R) :
    IsLocal fun s r => P (c s) ∧ R s r := by
  rintro s r ⟨hP, h⟩
  obtain ⟨hsuffix, hlocal⟩ := hR s r h
  refine ⟨hsuffix, ?_⟩
  rintro u v x y rfl hv
  exact ⟨by rwa [hc u y x], hlocal u v x y rfl hv⟩

theorem text (w : List Char) : IsLocal fun s r => s = w ++ r := by
  rintro _ r rfl
  refine ⟨List.suffix_append w r, ?_⟩
  rintro u v x y hu rfl
  rw [← List.append_assoc] at hu
  rw [← List.append_cancel_right hu, List.append_assoc]

theorem isPrefixOf_and_drop {mark s r : List Char} : mark.isPrefixOf s ∧ s.drop mark.length = r ↔ s = mark ++ r := by
  constructor
  · rintro ⟨hbegins, rfl⟩
    obtain ⟨rest, rfl⟩ := List.isPrefixOf_iff_prefix.1 hbegins
    rw [List.drop_left]
  · rintro rfl
    exact ⟨List.isPrefixOf_iff_prefix.2 (List.prefix_append mark r), List.drop_left⟩

theorem spaces : IsLocal fun s r => skipSpaces s = r := by
  rintro s _ rfl
  refine ⟨List.dropWhile_suffix isSpace, ?_⟩
  rintro u v x y rfl hv
  rw [skipSpaces_append_tag] at hv ⊢
  rw [List.append_cancel_right hv]

theorem of_iff (h : IsLocal R) (hiff : ∀ s r, S s r ↔ R s r) : IsLocal S := by
  rwa [funext fun s => funext fun r => propext (hiff s r)]

theorem of_append (hsuffix : ∀ s r, R s r → r <:+ s) (h : ∀ u v x, R (u ++ tag x) (v ++ tag x) ↔ R u v) :
    IsLocal R := by
  refine fun s r hR => ⟨hsuffix s r hR, ?_⟩
  rintro u v x y rfl rfl
  exact (h u v y).2 ((h u v x).1 hR)

/-- More fuel than the text has characters makes no difference, so that it can depend on the text. -/
theorem of_fuel {R : Nat → List Char → List Char → Prop} (h : ∀ fuel, IsLocal (R fuel))
    (hfuel : ∀ fuel s r, s.length ≤ fuel → (R fuel s r ↔ R s.length s r)) : IsLocal fun s r => R s.length s r := by
  intro s r hR
  refine ⟨(h _ s r hR).1, ?_⟩
  rintro u v x y rfl rfl
  have hmax := (hfuel (max (u ++ tag x).length (u ++ tag y).length) _ _ (Nat.le_max_left ..)).2 hR
  exact (hfuel _ _ _ (Nat.le_max_right ..)).1 ((h _ _ _ hmax).2 u v x y rfl rfl)

theorem after (mark : List Char) (n : Nat) (hn : mark.length = n) (hR : IsLocal R) :
    IsLocal fun s r => mark.isPrefixOf s ∧ R (s.drop n) r := by
  subst hn
  refine ((text mark).comp hR).of_iff fun s r => ?_
  simp only [← isPrefixOf_and_drop, and_assoc, exists_and_left, exists_eq_left']

theorem afterSpaces (hR : IsLocal R) : IsLocal fun s r => R (skipSpaces s) r :=
  (spaces.comp hR).of_iff fun s r => by simp

theorem ite {β : Type} {c : List Char → Bool} {A B : List Char → Option β} {out : List Char → β} (hc : IsSteady c)
    (hA : IsLocal fun s r => c s ∧ A s = some (out r)) (hB : IsLocal fun s r => B s = some (out r)) :
    IsLocal fun s r => (if c s then A s else B s) = some (out r) := by
  have hother : IsLocal fun s r => c s = false ∧ B s = some (out r) := hB.test (P := fun b => b = false) hc
  refine (hA.or hother).of_iff fun s r => ?_
  cases c s <;> simp

end IsLocal

theorem need?_eq_some {mark : String} {s r : List Char} : need? mark s = some r ↔ s = mark.toList ++ r := by
  rw [need?, Option.ite_none_right_eq_some, Option.some_inj, IsLocal.isPrefixOf_and_drop]

theorem isLocal_need? (mark : String) : IsLocal fun s r => need? mark s = some r :=
  (IsLocal.text mark.toList).of_iff fun _ _ => need?_eq_some

theorem isLocal_needSpaces? : IsLocal fun s r => needSpaces? s = some r := by
  refine .of_append ?_ ?_
  · intro s r h
    cases s with
    | nil => cases h
    | cons c s =>
        rw [needSpaces?, Option.ite_none_right_eq_some] at h
        obtain ⟨-, h⟩ := h
        cases h
        exact (List.dropWhile_suffix isSpace).trans (List.suffix_cons c s)
  · intro u v x
    cases u with
    | nil => simp [tag, needSpaces?, isSpace]
    | cons c u => simp [needSpaces?, skipSpaces_append_tag]

theorem isLocal_takeName? (name : List Char) : IsLocal fun s r => takeName? s = some (name, r) := by
  refine .of_append ?_ ?_
  · intro s r h
    cases s with
    | nil => cases h
    | cons c s =>
        rw [takeName?, Option.ite_none_right_eq_some] at h
        obtain ⟨-, h⟩ := h
        cases h
        exact (List.dropWhile_suffix isNameChar).trans (List.suffix_cons c s)
  · intro u v x
    cases u with
    | nil =>
        have hstart : isNameStart '<' = false := by decide
        simp [tag, takeName?, hstart]
    | cons c u =>
        have hchar : isNameChar '<' = false := by decide
        simp [takeName?, takeWhile_append_tag hchar, dropWhile_append_tag hchar]

theorem takeQuote?_eq_some {quote : Char} {s r : List Char} :
    takeQuote? s = some (quote, r) ↔ (quote = '"' ∨ quote = '\'') ∧ s = [quote] ++ r := by
  constructor
  · intro h
    rw [takeQuote?.eq_def] at h
    split at h <;> cases h <;> simp
  · rintro ⟨rfl | rfl, rfl⟩ <;> rfl

theorem isLocal_takeQuote? (quote : Char) : IsLocal fun s r => takeQuote? s = some (quote, r) :=
  (IsLocal.and fun _ => IsLocal.text [quote]).of_iff fun _ _ => takeQuote?_eq_some

theorem takeWhile_and_dropWhile {c : Char} {s value r : List Char} :
    s.takeWhile (· != c) = value ∧ s.dropWhile (· != c) = c :: r ↔ c ∉ value ∧ s = (value ++ [c]) ++ r := by
  induction s generalizing value with
  | nil => simp
  | cons d s ih =>
      rw [List.takeWhile_cons, List.dropWhile_cons]
      by_cases hd : d = c
      · subst hd
        cases value with
        | nil => simp
        | cons e value =>
            simp only [bne_self_eq_false, Bool.false_eq_true, if_false, List.mem_cons]
            grind
      · cases value with
        | nil => simp [hd]
        | cons e value =>
            have hne : (d != c) = true := by simp [hd]
            simp only [hne, if_true, List.cons.injEq, List.mem_cons, List.cons_append]
            grind

theorem dropWhile_eq_cons {c d : Char} {s r : List Char} (h : s.dropWhile (· != c) = d :: r) : d = c := by
  induction s with
  | nil => cases h
  | cons e s ih =>
      rw [List.dropWhile_cons] at h
      split at h
      · exact ih h
      · next he =>
        cases h
        simpa using he

theorem isLocal_skipPast (c : Char) : IsLocal fun s r => ∃ d, s.dropWhile (· != c) = d :: r := by
  have hpast : IsLocal fun s r => ∃ value, c ∉ value ∧ s = (value ++ [c]) ++ r :=
    .iExists fun value => .and fun _ => .text _
  refine hpast.of_iff fun s r => ?_
  simp only [← takeWhile_and_dropWhile, exists_eq_left']
  constructor
  · rintro ⟨d, hd⟩
    rw [hd, dropWhile_eq_cons hd]
  · exact fun h => ⟨c, h⟩

theorem takeQuoted?_eq_some {value s r : List Char} : takeQuoted? s = some (value, r) ↔
    ∃ c m, takeQuote? s = some (c, m) ∧ c ∉ value ∧ m = (value ++ [c]) ++ r := by
  simp only [takeQuoted?, Option.bind_eq_bind, Option.bind_eq_some_iff, Prod.exists]
  refine exists_congr fun c => exists_congr fun m => and_congr_right fun _ => ?_
  rw [← takeWhile_and_dropWhile]
  cases hdrop : m.dropWhile (· != c) with
  | nil => simp
  | cons d rest =>
      obtain rfl := dropWhile_eq_cons hdrop
      simp

theorem isLocal_takeQuoted? (value : List Char) : IsLocal fun s r => takeQuoted? s = some (value, r) := by
  have hpast (c : Char) : IsLocal fun s r => c ∉ value ∧ s = (value ++ [c]) ++ r :=
    .and fun _ => .text _
  exact (IsLocal.iExists fun c => (isLocal_takeQuote? c).comp (hpast c)).of_iff fun _ _ => takeQuoted?_eq_some

theorem isPrefixOf_append_tag_of_notMem {mark : List Char} (h : '<' ∉ mark) (u x : List Char) :
    mark.isPrefixOf (u ++ tag x) = mark.isPrefixOf u := by
  induction u generalizing mark with
  | nil =>
      cases mark with
      | nil => rfl
      | cons c mark =>
          have hc : c ≠ '<' := fun hc => h (hc ▸ List.mem_cons_self)
          simp [tag, List.isPrefixOf, hc]
  | cons c u ih =>
      cases mark with
      | nil => rfl
      | cons d mark =>
          rw [List.cons_append, List.isPrefixOf, List.isPrefixOf, ih fun hmem => h (List.mem_cons_of_mem d hmem)]

theorem eq_of_takeUntil? {mark value : List Char} (h : takeUntil? mark s = some (value, r)) :
    s = value ++ mark ++ r := by
  induction s generalizing value with
  | nil => cases h
  | cons c s ih =>
      rw [takeUntil?] at h
      split at h
      · next hbegins =>
        cases h
        exact (List.prefix_iff_eq_append.1 (List.isPrefixOf_iff_prefix.1 hbegins)).symm
      · rw [Option.ite_none_right_eq_some, Option.map_eq_some_iff] at h
        obtain ⟨-, ⟨before, rest⟩, hrest, heq⟩ := h
        cases heq
        exact congrArg (c :: ·) (ih hrest)

theorem suffix_of_takeUntil? {mark value : List Char} (h : takeUntil? mark s = some (value, r)) : r <:+ s :=
  ⟨value ++ mark, (eq_of_takeUntil? h).symm⟩

theorem isLocal_takeUntil? {mark : List Char} (hmark : mark ≠ []) (h : '<' ∉ mark) (value : List Char) :
    IsLocal fun s r => takeUntil? mark s = some (value, r) := by
  refine .of_append (fun s r hr => suffix_of_takeUntil? hr) fun u v x => ?_
  induction u generalizing value with
  | nil =>
      -- reading on into the tag would leave less than the tag
      refine iff_of_false (fun hr => ?_) nofun
      have hnot : mark.isPrefixOf ('<' :: 's' :: x) = false := by
        have hnil := isPrefixOf_append_tag_of_notMem h [] x
        cases mark with
        | nil => exact absurd rfl hmark
        | cons c mark => exact hnil
      rw [List.nil_append, tag, takeUntil?, hnot, if_neg (by decide), Option.ite_none_right_eq_some,
        Option.map_eq_some_iff] at hr
      obtain ⟨-, ⟨before, rest⟩, hrest, heq⟩ := hr
      cases heq
      have hlength := (suffix_of_takeUntil? hrest).length_le
      simp at hlength
      omega
  | cons c u ih =>
      rw [List.cons_append, takeUntil?, takeUntil?, ← List.cons_append, isPrefixOf_append_tag_of_notMem h]
      split
      · next hbegins =>
        have hlength := (List.isPrefixOf_iff_prefix.1 hbegins).length_le
        rw [List.drop_append_of_le_length hlength]
        simp
      · simp only [Option.ite_none_right_eq_some, Option.map_eq_some_iff, Prod.exists, Prod.mk.injEq]
        refine and_congr_right fun _ => ?_
        constructor
        · rintro ⟨before, rest, hrest, rfl, rfl⟩
          exact ⟨before, v, (ih before).1 hrest, rfl, rfl⟩
        · rintro ⟨before, rest, hrest, rfl, rfl⟩
          exact ⟨before, _, (ih before).2 hrest, rfl, rfl⟩

theorem isLocal_takeQName? (name : QName) : IsLocal fun s r => takeQName? s = some (name, r) := by
  have hpart : ((fun c : Char => c != ':' && isNameChar c) '<') = false := by decide
  refine .of_append (fun s r h => ?_) fun u v x => ?_
  · have hdrop := List.dropWhile_suffix (l := s) fun c : Char => c != ':' && isNameChar c
    unfold takeQName? at h
    dsimp only at h
    split at h
    · next rest hrest =>
      rw [Option.ite_none_left_eq_some] at h
      obtain ⟨-, h⟩ := h
      cases h
      rw [hrest] at hdrop
      exact (List.dropWhile_suffix _).trans ((List.suffix_cons ':' rest).trans hdrop)
    · rw [Option.ite_none_right_eq_some] at h
      obtain ⟨-, h⟩ := h
      cases h
      exact hdrop
  · unfold takeQName?
    dsimp only
    generalize (fun c : Char => c != ':' && isNameChar c) = isPartChar at hpart ⊢
    rw [takeWhile_append_tag hpart, dropWhile_append_tag hpart]
    rcases u.dropWhile isPartChar with _ | ⟨c, rest⟩
    · simp [tag]
    · by_cases hc : c = ':'
      · subst hc
        have htag : ¬(tag x).head? = some ':' := by simp [tag]
        simp [takeWhile_append_tag hpart, dropWhile_append_tag hpart, htag]
      · have hrest : c :: (rest ++ tag x) = v ++ tag x ↔ c :: rest = v := by
          rw [← List.cons_append, List.append_left_inj]
        simp [hc, hrest]

theorem isLocal_takeAttribute? (raw : RawAttribute) : IsLocal fun s r => takeAttribute? s = some (raw, r) := by
  have hvalue (quote : Char) (value : List Char) : IsLocal fun s r =>
      ∃ m, takeQuote? s = some (quote, m) ∧ takeUntil? [quote] m = some (value, r) := by
    have hand : IsLocal fun s r => (quote = '"' ∨ quote = '\'') ∧ ∃ m, s = [quote] ++ m ∧
        takeUntil? [quote] m = some (value, r) := by
      refine .and fun hquote => (IsLocal.text [quote]).comp (isLocal_takeUntil? (by simp) ?_ value)
      rcases hquote with rfl | rfl <;> decide
    refine hand.of_iff fun s r => ?_
    simp only [takeQuote?_eq_some, and_assoc, exists_and_left]
  have hbody : IsLocal fun s r => ∃ name m, takeQName? s = some (name, m) ∧ ∃ m', need? "=" (skipSpaces m) = some m' ∧
      ∃ quote value, (value.contains '<' = false ∧ (⟨name, value⟩ : RawAttribute) = raw) ∧
        ∃ m'', takeQuote? (skipSpaces m') = some (quote, m'') ∧ takeUntil? [quote] m'' = some (value, r) :=
    .iExists fun name => (isLocal_takeQName? name).comp <| (isLocal_need? "=").afterSpaces.comp <|
      .iExists fun quote => .iExists fun value => .and fun _ => (hvalue quote value).afterSpaces
  refine hbody.of_iff fun s r => ?_
  simp only [takeAttribute?, Option.bind_eq_bind, Option.bind_eq_some_iff, Prod.exists]
  refine exists_congr fun name => exists_congr fun m => and_congr_right fun _ => exists_congr fun m' =>
    and_congr_right fun _ => exists_congr fun quote => ?_
  constructor
  · rintro ⟨m'', hquote, value, rest, hrest, h⟩
    rw [Option.ite_none_left_eq_some] at h
    obtain ⟨hcontains, h⟩ := h
    cases h
    exact ⟨value, ⟨by simpa using hcontains, rfl⟩, m'', hquote, hrest⟩
  · rintro ⟨value, ⟨hcontains, rfl⟩, m'', hquote, hrest⟩
    exact ⟨m'', hquote, value, r, hrest, by rw [hcontains]; rfl⟩

theorem isLocal_skipComment? : IsLocal fun s r => skipComment? s = some r := by
  have htext (text : List Char) : IsLocal fun s r => takeUntil? ['-', '-', '>'] s = some (text, r) :=
    isLocal_takeUntil? (by decide) (by decide) text
  have hend (text : List Char) : IsLocal fun s r =>
      (takeUntil? ['-', '-'] (text ++ ['-'])).isSome = false ∧ s = r := .and fun _ => .refl
  refine (IsLocal.iExists fun text => (htext text).comp (hend text)).of_iff fun s r => ?_
  simp only [skipComment?, Option.bind_eq_bind, Option.bind_eq_some_iff, Prod.exists]
  refine exists_congr fun text => exists_congr fun m => and_congr_right fun _ => ?_
  cases (takeUntil? ['-', '-'] (text ++ ['-'])).isSome <;> simp

theorem isLocal_skipInstruction? : IsLocal fun s r => skipInstruction? s = some r := by
  have htext (text : List Char) : IsLocal fun s r => takeUntil? ['?', '>'] s = some (text, r) :=
    isLocal_takeUntil? (by decide) (by decide) text
  have hname : IsSteady "xml ".toList.isPrefixOf := isSteady_isPrefixOf _ (by decide)
  have hbody : IsLocal fun s r => ∃ name m, takeName? s = some (name, m) ∧
      ∃ text, takeUntil? ['?', '>'] (skipSpaces m) = some (text, r) :=
    .iExists fun name => (isLocal_takeName? name).comp <| .iExists fun text => (htext text).afterSpaces
  refine (hbody.test (P := fun b => b = false) hname).of_iff fun s r => ?_
  rw [skipInstruction?]
  cases "xml ".toList.isPrefixOf s <;> simp [Option.bind_eq_some_iff]

theorem isLocal_betweenParts? : IsLocal fun s r => betweenParts? s = some r := by
  have hmark : IsSteady ['?', '>'].isPrefixOf := isSteady_isPrefixOf _ (by decide)
  -- at the end of the text there is no tag
  have hend : IsLocal fun s r => s = [] ∧ s = r := by
    rintro s r ⟨rfl, rfl⟩
    refine ⟨List.suffix_refl _, fun u v x y hu => ?_⟩
    simp [tag] at hu
  have hclosed := IsLocal.refl.test (P := fun b => b) hmark
  have hother := isLocal_needSpaces?.test (P := fun b => b = false) hmark
  refine (hclosed.or (hend.or hother)).of_iff fun s r => ?_
  unfold betweenParts?
  split
  · simp
  · simp [needSpaces?]
  · next hne hnil =>
    have hnot : ['?', '>'].isPrefixOf s = false := isPrefixOf_eq_false hne
    have hs : s ≠ [] := hnil
    simp [hnot, hs]

theorem isLocal_skipPart? (name : String) (hname : IsSteady name.toList.isPrefixOf) :
    IsLocal fun s r => skipPart? name s = some r := by
  refine .ite hname ?_ (IsLocal.refl.of_iff fun s r => by simp)
  have hpart : IsLocal fun s r => ∃ raw m, takeAttribute? s = some (raw, m) ∧ betweenParts? m = some r :=
    IsLocal.iExists fun raw => (isLocal_takeAttribute? raw).comp isLocal_betweenParts?
  refine (hpart.test (P := fun b => b) hname).of_iff fun s r => ?_
  simp [Option.bind_eq_some_iff]

theorem isLocal_endDeclaration? (name : String) (hname : IsSteady name.toList.isPrefixOf) : IsLocal fun s r =>
    (if name.toList.isPrefixOf s then ((takeAttribute? s).map Prod.snd).bind fun s => need? "?>" (skipSpaces s)
      else (some s).bind fun s => need? "?>" (skipSpaces s)) = some r := by
  refine .ite hname ?_ ((isLocal_need? "?>").afterSpaces.of_iff fun s r => by rw [Option.bind_some])
  have hpart : IsLocal fun s r => ∃ raw m, takeAttribute? s = some (raw, m) ∧ need? "?>" (skipSpaces m) = some r :=
    .iExists fun raw => (isLocal_takeAttribute? raw).comp (isLocal_need? "?>").afterSpaces
  refine (hpart.test (P := fun b => b) hname).of_iff fun s r => and_congr_right fun _ => ?_
  simp only [Option.bind_map, Option.bind_eq_some_iff, Prod.exists, Function.comp_def]

theorem isLocal_skipDeclaration? : IsLocal fun s r => skipDeclaration? s = some r := by
  have hversion : IsSteady "version".toList.isPrefixOf := isSteady_isPrefixOf _ (by decide)
  have hparts := (isLocal_skipPart? "version" hversion).comp <|
    (isLocal_skipPart? "encoding" (isSteady_isPrefixOf _ (by decide))).comp <|
    isLocal_endDeclaration? "standalone" (isSteady_isPrefixOf _ (by decide))
  refine (isLocal_betweenParts?.comp (hparts.test (P := fun b => b) hversion)).of_iff fun s r => ?_
  rw [skipDeclaration?, Option.bind_eq_bind, Option.bind_eq_some_iff]
  refine exists_congr fun m => and_congr_right fun _ => ?_
  cases "version".toList.isPrefixOf m with
  | false => simp only [Bool.not_false, if_true, Option.bind_eq_bind, Option.bind_none, Bool.false_eq_true, false_and,
      reduceCtorEq]
  | true =>
      simp only [Bool.not_true, Bool.false_eq_true, if_false, Option.bind_eq_bind, Option.bind_eq_some_iff, true_and]

theorem isLocal_skipExternal? (external : Bool) : IsLocal fun s r => skipExternal? s = some (external, r) := by
  have hsystem : IsLocal fun s r => ∃ m, needSpaces? s = some m ∧ ∃ value m', takeQuoted? m = some (value, m') ∧
      true = external ∧ m' = r :=
    isLocal_needSpaces?.comp <| .iExists fun value => (isLocal_takeQuoted? value).comp (.and fun _ => .refl)
  have hpublic : IsLocal fun s r => ∃ m, needSpaces? s = some m ∧ ∃ value m', takeQuoted? m = some (value, m') ∧
      ∃ m'', needSpaces? m' = some m'' ∧ ∃ value' m₃, takeQuoted? m'' = some (value', m₃) ∧
        true = external ∧ m₃ = r :=
    isLocal_needSpaces?.comp <| .iExists fun value => (isLocal_takeQuoted? value).comp hsystem
  have hnothing : IsLocal fun s r => false = external ∧ s = r := .and fun _ => .refl
  refine .ite (isSteady_isPrefixOf _ (by decide)) ?_ (.ite (isSteady_isPrefixOf _ (by decide)) ?_ ?_)
  · refine (hsystem.after "SYSTEM".toList 6 (by decide)).of_iff fun s r => and_congr_right fun _ => ?_
    simp only [Option.bind_eq_bind, Option.bind_eq_some_iff, Prod.exists, Option.pure_def, Option.some_inj,
      Prod.mk.injEq]
  · refine (hpublic.after "PUBLIC".toList 6 (by decide)).of_iff fun s r => and_congr_right fun _ => ?_
    simp only [Option.bind_eq_bind, Option.bind_eq_some_iff, Prod.exists, Option.pure_def, Option.some_inj,
      Prod.mk.injEq]
  · exact hnothing.of_iff fun s r => by rw [Option.some_inj, Prod.mk.injEq]

theorem isLocal_external (general : Bool) : IsLocal fun s r =>
    general = true ∧ ("NDATA".toList.isPrefixOf (skipSpaces s) ∧ ∃ m, needSpaces? ((skipSpaces s).drop 5) = some m ∧
      ∃ name, takeName? m = some (name, r)) ∨
    (general && "NDATA".toList.isPrefixOf (skipSpaces s)) = false ∧ s = r := by
  have hname : IsLocal fun s r => ∃ m, needSpaces? s = some m ∧ ∃ name, takeName? m = some (name, r) :=
    isLocal_needSpaces?.comp (.iExists isLocal_takeName?)
  exact (IsLocal.and fun _ => (hname.after "NDATA".toList 5 (by decide)).afterSpaces).or
    (IsLocal.refl.test (P := fun b => (general && b) = false)
      (isSteady_isPrefixOf "NDATA".toList (by decide)).afterSpaces)

theorem isLocal_takeDefinition? (general : Bool) (value : Option (List Char)) :
    IsLocal fun s r => takeDefinition? general s = some (value, r) := by
  have hquoted : IsLocal fun s r => ∃ v, some v = value ∧ takeQuoted? s = some (v, r) :=
    .iExists fun v => .and fun _ => isLocal_takeQuoted? v
  have houtside : IsLocal fun s r => none = value ∧ ∃ m, skipExternal? s = some (true, m) ∧ _ :=
    .and fun _ => (isLocal_skipExternal? true).comp (isLocal_external general)
  refine (hquoted.or houtside).of_iff fun s r => ?_
  -- a quoted text is nothing outside of the document
  have hquote (c : Char) (rest m : List Char) (hc : c = '"' ∨ c = '\'') :
      skipExternal? (c :: rest) ≠ some (true, m) := by
    rcases hc with rfl | rfl <;> simp [skipExternal?, List.isPrefixOf]
  rw [takeDefinition?.eq_def]
  split
  case h_1 rest =>
    simp only [hquote '"' rest _ (.inl rfl), false_and, exists_false, and_false, or_false, Option.map_eq_some_iff,
      Prod.exists, Prod.mk.injEq]
    grind
  case h_2 rest =>
    simp only [hquote '\'' rest _ (.inr rfl), false_and, exists_false, and_false, or_false, Option.map_eq_some_iff,
      Prod.exists, Prod.mk.injEq]
    grind
  case h_3 hdouble hsingle =>
    have hnone (v : List Char) : takeQuoted? s ≠ some (v, r) := by
      intro h
      simp only [takeQuoted?, Option.bind_eq_bind, Option.bind_eq_some_iff, Prod.exists, takeQuote?_eq_some] at h
      obtain ⟨c, m, ⟨rfl | rfl, rfl⟩, -⟩ := h
      · exact hdouble m rfl
      · exact hsingle m rfl
    simp only [hnone, and_false, exists_false, false_or, Option.bind_eq_bind, Option.bind_eq_some_iff, Prod.exists]
    simp only [Bool.exists_bool, Bool.not_false, if_true, Option.bind_none, reduceCtorEq, and_false, exists_false,
      false_or, Bool.not_true, Bool.false_eq_true, if_false]
    rw [← exists_and_left]
    refine exists_congr fun m => ?_
    cases hgeneral : general && "NDATA".toList.isPrefixOf (skipSpaces m) with
    | false =>
        simp only [Bool.false_eq_true, if_false, Option.pure_def, Option.some_inj, Prod.mk.injEq, true_and]
        grind
    | true =>
        obtain ⟨hgeneral, hnotation⟩ := Bool.and_eq_true_iff.1 hgeneral
        simp only [hgeneral, hnotation, if_true, Option.pure_def, Option.bind_eq_some_iff, Option.some_inj,
          Prod.mk.injEq, true_and, Bool.true_eq_false, false_and, or_false]
        grind

theorem isLocal_generalEntity (general : Bool) : IsLocal fun s r => (match s with
    | '%' :: rest => (needSpaces? rest).map fun rest => (false, rest)
    | _ => some (true, s)) = some (general, r) := by
  have hparameter : IsLocal fun s r => false = general ∧ ∃ m, s = ['%'] ++ m ∧ needSpaces? m = some r :=
    .and fun _ => (IsLocal.text ['%']).comp isLocal_needSpaces?
  have hother : IsLocal fun s r => true = general ∧ ['%'].isPrefixOf s = false ∧ s = r :=
    .and fun _ => IsLocal.refl.test (P := fun b => b = false) (isSteady_isPrefixOf _ (by decide))
  refine (hparameter.or hother).of_iff fun s r => ?_
  split
  · simp [List.isPrefixOf, and_comm]
  · next hne =>
    have hnot : ['%'].isPrefixOf s = false := isPrefixOf_eq_false hne
    have hother (m : List Char) : s ≠ ['%'] ++ m := fun hs => hne m hs
    simp only [hother, false_and, exists_false, and_false, false_or, hnot, true_and, Option.some_inj, Prod.mk.injEq]

theorem isLocal_takeEntity? (entities : Entities) : IsLocal fun s r => takeEntity? s = some (entities, r) := by
  have hend (name : List Char) (value : Option (List Char)) : IsLocal fun s r =>
      ∃ m, need? ">" (skipSpaces s) = some m ∧ (value.toList.map fun v => (name, v)) = entities ∧ m = r :=
    (isLocal_need? ">").afterSpaces.comp (.and fun _ => .refl)
  have hentity := isLocal_needSpaces?.comp <| .iExists fun general => (isLocal_generalEntity general).comp <|
    .iExists fun name => (isLocal_takeName? name).comp <| isLocal_needSpaces?.comp <| .iExists fun value =>
      (isLocal_takeDefinition? general value).comp (hend name value)
  refine hentity.of_iff fun s r => ?_
  rw [takeEntity?, Option.bind_eq_bind, Option.bind_eq_some_iff]
  refine exists_congr fun m => and_congr_right fun _ => ?_
  split <;> simp only [Option.bind_eq_bind, Option.bind_eq_some_iff, Prod.exists, Option.pure_def, Option.some_inj,
    Prod.mk.injEq]

theorem skipMisc?_succ (fuel : Nat) (s : List Char) :
    skipMisc? (fuel + 1) s =
      if ['<', '!', '-', '-'].isPrefixOf (skipSpaces s) then
        (skipComment? ((skipSpaces s).drop 4)).bind (skipMisc? fuel)
      else if ['<', '?'].isPrefixOf (skipSpaces s) then
        (skipInstruction? ((skipSpaces s).drop 2)).bind (skipMisc? fuel)
      else some (skipSpaces s) := by
  rw [skipMisc?]
  split
  · next hs => simp [hs, List.isPrefixOf]
  · next hs => simp [hs, List.isPrefixOf]
  · next hcomment hinstruction =>
    rw [isPrefixOf_eq_false hcomment, isPrefixOf_eq_false hinstruction]
    rfl

theorem isLocal_skipMisc? (fuel : Nat) : IsLocal fun s r => skipMisc? fuel s = some r := by
  induction fuel with
  | zero => exact IsLocal.refl.of_iff fun s r => by rw [skipMisc?, Option.some_inj]
  | succ fuel ih =>
      have hmisc : IsLocal fun s r =>
          (if ['<', '!', '-', '-'].isPrefixOf s then (skipComment? (s.drop 4)).bind (skipMisc? fuel)
            else if ['<', '?'].isPrefixOf s then (skipInstruction? (s.drop 2)).bind (skipMisc? fuel)
            else some s) = some r := by
        refine .ite (isSteady_isPrefixOf _ (by decide)) ?_ (.ite (isSteady_isPrefixOf _ (by decide)) ?_ ?_)
        · refine ((isLocal_skipComment?.comp ih).after ['<', '!', '-', '-'] 4 rfl).of_iff fun s r => ?_
          rw [Option.bind_eq_some_iff]
        · refine ((isLocal_skipInstruction?.comp ih).after ['<', '?'] 2 rfl).of_iff fun s r => ?_
          rw [Option.bind_eq_some_iff]
        · exact IsLocal.refl.of_iff fun s r => by rw [Option.some_inj]
      exact hmisc.afterSpaces.of_iff fun s r => by rw [skipMisc?_succ]

theorem length_lt_of_after {R : List Char → List Char → Prop} (hR : IsLocal R) {mark : List Char} {n : Nat}
    (hbegins : mark.isPrefixOf (skipSpaces s)) (hmark : mark.length = n + 1) (h : R ((skipSpaces s).drop (n + 1)) r) :
    r.length < s.length := by
  have hlength := (List.isPrefixOf_iff_prefix.1 hbegins).length_le
  have hspaces : (skipSpaces s).length ≤ s.length := (List.dropWhile_suffix isSpace).length_le
  have hrest := (hR _ _ h).1.length_le
  rw [List.length_drop] at hrest
  omega

/-- Each comment and each processing instruction takes a character at least, so that fuel for all is enough. -/
theorem skipMisc?_of_le {m n : Nat} (hm : s.length ≤ m) (hn : s.length ≤ n) : skipMisc? m s = skipMisc? n s := by
  induction m generalizing n s with
  | zero =>
      obtain rfl := List.length_eq_zero_iff.1 (Nat.le_zero.1 hm)
      cases n <;> rfl
  | succ m ih =>
      cases n with
      | zero =>
          obtain rfl := List.length_eq_zero_iff.1 (Nat.le_zero.1 hn)
          rfl
      | succ n =>
          rw [skipMisc?_succ, skipMisc?_succ]
          split
          · next hbegins =>
            refine Option.bind_congr fun rest hrest => ?_
            have hlt := length_lt_of_after isLocal_skipComment? hbegins rfl hrest
            exact ih (by omega) (by omega)
          · split
            · next hbegins =>
              refine Option.bind_congr fun rest hrest => ?_
              have hlt := length_lt_of_after isLocal_skipInstruction? hbegins rfl hrest
              exact ih (by omega) (by omega)
            · rfl

theorem isLocal_skipMisc : IsLocal fun s r => skipMisc? s.length s = some r :=
  .of_fuel isLocal_skipMisc? fun fuel s r hfuel => by rw [skipMisc?_of_le hfuel s.length.le_refl]

theorem takeSubset?_succ (fuel : Nat) (s : List Char) : takeSubset? (fuel + 1) s =
    if "<!ENTITY".toList.isPrefixOf (skipSpaces s) then
      (takeEntity? ((skipSpaces s).drop 8)).bind fun p =>
        (takeSubset? fuel p.2).bind fun q => some (p.1 ++ q.1, q.2)
    else if "<!ELEMENT".toList.isPrefixOf (skipSpaces s) || "<!ATTLIST".toList.isPrefixOf (skipSpaces s)
        || "<!NOTATION".toList.isPrefixOf (skipSpaces s) then
      ((skipSpaces s).dropWhile (· != '>')).tail?.bind (takeSubset? fuel)
    else if ['<', '!', '-', '-'].isPrefixOf (skipSpaces s) then
      (skipComment? ((skipSpaces s).drop 4)).bind (takeSubset? fuel)
    else if ['<', '?'].isPrefixOf (skipSpaces s) then
      (skipInstruction? ((skipSpaces s).drop 2)).bind (takeSubset? fuel)
    else if [']'].isPrefixOf (skipSpaces s) then
      (need? ">" (skipSpaces ((skipSpaces s).drop 1))).map fun rest => ([], rest)
    else none := by
  rw [takeSubset?]
  dsimp only
  split
  · rfl
  · split
    · cases (skipSpaces s).dropWhile (· != '>') <;> rfl
    · split
      · next hs => simp [hs, List.isPrefixOf]
      · next hs => simp [hs, List.isPrefixOf]
      · next hs => simp [hs, List.isPrefixOf]
      · next hcomment hinstruction hend =>
        rw [isPrefixOf_eq_false hcomment, isPrefixOf_eq_false hinstruction, isPrefixOf_eq_false hend]
        rfl

theorem isLocal_takeSubset? (fuel : Nat) (entities : Entities) :
    IsLocal fun s r => takeSubset? fuel s = some (entities, r) := by
  induction fuel generalizing entities with
  | zero =>
      have hnothing : IsLocal fun s r => [] = entities ∧ s = r := .and fun _ => .refl
      exact hnothing.of_iff fun s r => by rw [takeSubset?, Option.some_inj, Prod.mk.injEq]
  | succ fuel ih =>
      have hentity : IsLocal fun s r => ∃ first m, takeEntity? s = some (first, m) ∧ ∃ more m',
          takeSubset? fuel m = some (more, m') ∧ first ++ more = entities ∧ m' = r :=
        .iExists fun first => (isLocal_takeEntity? first).comp <| .iExists fun more =>
          (ih more).comp (.and fun _ => .refl)
      have hmarkup : IsLocal fun s r =>
          (s.dropWhile (· != '>')).tail?.bind (takeSubset? fuel) = some (entities, r) := by
        refine ((isLocal_skipPast '>').comp (ih entities)).of_iff fun s r => ?_
        cases s.dropWhile (· != '>') <;> simp
      have hend : IsLocal fun s r => ∃ m, need? ">" (skipSpaces s) = some m ∧ [] = entities ∧ m = r :=
        (isLocal_need? ">").afterSpaces.comp (.and fun _ => .refl)
      have hsubset : IsLocal fun s r =>
          (if "<!ENTITY".toList.isPrefixOf s then
            (takeEntity? (s.drop 8)).bind fun p => (takeSubset? fuel p.2).bind fun q => some (p.1 ++ q.1, q.2)
          else if "<!ELEMENT".toList.isPrefixOf s || "<!ATTLIST".toList.isPrefixOf s
              || "<!NOTATION".toList.isPrefixOf s then
            (s.dropWhile (· != '>')).tail?.bind (takeSubset? fuel)
          else if ['<', '!', '-', '-'].isPrefixOf s then (skipComment? (s.drop 4)).bind (takeSubset? fuel)
          else if ['<', '?'].isPrefixOf s then (skipInstruction? (s.drop 2)).bind (takeSubset? fuel)
          else if [']'].isPrefixOf s then (need? ">" (skipSpaces (s.drop 1))).map fun rest => ([], rest)
          else none) = some (entities, r) := by
        have hdeclared : IsSteady fun s => "<!ELEMENT".toList.isPrefixOf s || "<!ATTLIST".toList.isPrefixOf s
            || "<!NOTATION".toList.isPrefixOf s :=
          ((isSteady_isPrefixOf _ (by decide)).or (isSteady_isPrefixOf _ (by decide))).or
            (isSteady_isPrefixOf _ (by decide))
        refine .ite (isSteady_isPrefixOf _ (by decide)) ?_ <|
          .ite hdeclared (hmarkup.test (P := fun b => b) hdeclared) <|
          .ite (isSteady_isPrefixOf _ (by decide)) ?_ <| .ite (isSteady_isPrefixOf _ (by decide)) ?_ <|
          .ite (isSteady_isPrefixOf _ (by decide)) ?_ fun _ _ h => nomatch h
        · refine (hentity.after "<!ENTITY".toList 8 (by decide)).of_iff fun s r => and_congr_right fun _ => ?_
          simp only [Option.bind_eq_some_iff, Prod.exists, Option.some_inj, Prod.mk.injEq]
        · refine ((isLocal_skipComment?.comp (ih entities)).after ['<', '!', '-', '-'] 4 rfl).of_iff fun s r => ?_
          rw [Option.bind_eq_some_iff]
        · refine ((isLocal_skipInstruction?.comp (ih entities)).after ['<', '?'] 2 rfl).of_iff fun s r => ?_
          rw [Option.bind_eq_some_iff]
        · refine (hend.after [']'] 1 rfl).of_iff fun s r => and_congr_right fun _ => ?_
          simp only [Option.map_eq_some_iff, Prod.mk.injEq]
      exact hsubset.afterSpaces.of_iff fun s r => by rw [takeSubset?_succ]

theorem takeSubset?_of_lt {m n : Nat} (hm : s.length < m) (hn : s.length < n) : takeSubset? m s = takeSubset? n s := by
  induction m generalizing n s with
  | zero => cases hm
  | succ m ih =>
      cases n with
      | zero => cases hn
      | succ n =>
          have hrest {r : List Char} (hlt : r.length < s.length) : takeSubset? m r = takeSubset? n r :=
            ih (by omega) (by omega)
          rw [takeSubset?_succ, takeSubset?_succ]
          split
          · next hbegins =>
            refine Option.bind_congr fun p hp => ?_
            rw [hrest (length_lt_of_after (isLocal_takeEntity? p.1) hbegins (by decide) hp)]
          · split
            · refine Option.bind_congr fun rest htail => hrest ?_
              have hdrop := (List.dropWhile_suffix (l := skipSpaces s) (· != '>')).length_le
              have hspaces : (skipSpaces s).length ≤ s.length := (List.dropWhile_suffix isSpace).length_le
              cases hmarkup : (skipSpaces s).dropWhile (· != '>') with
              | nil => simp [hmarkup] at htail
              | cons d rest' =>
                  rw [hmarkup] at htail hdrop
                  cases htail
                  rw [List.length_cons] at hdrop
                  omega
            · split
              · next hbegins =>
                exact Option.bind_congr fun rest h => hrest (length_lt_of_after isLocal_skipComment? hbegins rfl h)
              · split
                · next hbegins =>
                  refine Option.bind_congr fun rest h => hrest ?_
                  exact length_lt_of_after isLocal_skipInstruction? hbegins rfl h
                · rfl

theorem isLocal_takeSubset (entities : Entities) :
    IsLocal fun s r => takeSubset? (s.length + 1) s = some (entities, r) :=
  .of_fuel (R := fun fuel s r => takeSubset? (fuel + 1) s = some (entities, r))
    (fun fuel => isLocal_takeSubset? (fuel + 1) entities)
    fun fuel s r hfuel => by rw [takeSubset?_of_lt (Nat.lt_succ_of_le hfuel) s.length.lt_succ_self]

def takeDoctypeEnd? (s : List Char) : Option (Entities × List Char) :=
  match s with
  | '>' :: rest => some ([], rest)
  | '[' :: rest => takeSubset? (rest.length + 1) rest
  | _ => none

theorem isLocal_takeDoctypeEnd? (entities : Entities) :
    IsLocal fun s r => takeDoctypeEnd? s = some (entities, r) := by
  have hempty : IsLocal fun s r => ∃ m, s = ['>'] ++ m ∧ [] = entities ∧ m = r :=
    (IsLocal.text ['>']).comp (.and fun _ => .refl)
  have hsubset : IsLocal fun s r => ∃ m, s = ['['] ++ m ∧ takeSubset? (m.length + 1) m = some (entities, r) :=
    (IsLocal.text ['[']).comp (isLocal_takeSubset entities)
  refine (hempty.or hsubset).of_iff fun s r => ?_
  unfold takeDoctypeEnd?
  split
  · simp [and_comm]
  · simp
  · next hempty hsubset =>
    simp only [reduceCtorEq, false_iff, not_or]
    exact ⟨fun ⟨m, hm, _⟩ => hempty m hm, fun ⟨m, hm, _⟩ => hsubset m hm⟩

theorem takeDoctype?_eq (s : List Char) : takeDoctype? s =
    (needSpaces? s).bind fun s => (takeName? s).bind fun p => (skipExternal? (skipSpaces p.2)).bind fun p =>
      takeDoctypeEnd? (skipSpaces p.2) := rfl

theorem isLocal_takeDoctype? (entities : Entities) : IsLocal fun s r => takeDoctype? s = some (entities, r) := by
  have hdoctype := isLocal_needSpaces?.comp <| .iExists fun name => (isLocal_takeName? name).comp <|
    .iExists fun external => (isLocal_skipExternal? external).afterSpaces.comp
      (isLocal_takeDoctypeEnd? entities).afterSpaces
  refine hdoctype.of_iff fun s r => ?_
  simp only [takeDoctype?_eq, Option.bind_eq_some_iff, Prod.exists]

theorem isLocal_takeProlog? (entities : Entities) : IsLocal fun s r => takeProlog? s = some (entities, r) := by
  have hdoctype : IsLocal fun s r => ∃ m, takeDoctype? s = some (entities, m) ∧ skipMisc? m.length m = some r :=
    (isLocal_takeDoctype? entities).comp isLocal_skipMisc
  have hprolog : IsLocal fun s r =>
      (if "<!DOCTYPE".toList.isPrefixOf s then
        (takeDoctype? (s.drop 9)).bind fun p => (skipMisc? p.2.length p.2).bind fun rest => some (p.1, rest)
      else some ([], s)) = some (entities, r) := by
    refine .ite (isSteady_isPrefixOf _ (by decide)) ?_ ?_
    · refine (hdoctype.after "<!DOCTYPE".toList 9 (by decide)).of_iff fun s r => and_congr_right fun _ => ?_
      simp only [Option.bind_eq_some_iff, Prod.exists, Option.some_inj, Prod.mk.injEq]
      grind
    · have hnothing : IsLocal fun s r => [] = entities ∧ s = r := .and fun _ => .refl
      exact hnothing.of_iff fun s r => by rw [Option.some_inj, Prod.mk.injEq]
  refine (isLocal_skipMisc.comp hprolog).of_iff fun s r => ?_
  rw [takeProlog?, Option.bind_eq_bind, Option.bind_eq_some_iff]
  rfl

theorem isLocal_declaration : IsLocal fun s r =>
    (if "<?xml ".toList.isPrefixOf s then skipDeclaration? (s.drop 5) else some s) = some r := by
  have hmark : IsSteady "<?xml ".toList.isPrefixOf := isSteady_isPrefixOf _ (by decide)
  refine .ite hmark ?_ (IsLocal.refl.of_iff fun s r => by rw [Option.some_inj])
  have hafter := isLocal_skipDeclaration?.after "<?xml".toList 5 (by decide)
  refine (hafter.test (P := fun b => b) hmark).of_iff fun s r => and_congr_right fun hbegins => ?_
  have hshort : "<?xml".toList.isPrefixOf s := by
    have hlong := List.isPrefixOf_iff_prefix.1 hbegins
    exact List.isPrefixOf_iff_prefix.2 (.trans (by decide) hlong)
  rw [hshort, eq_self, true_and]

theorem isLocal_root : IsLocal fun s r => ∃ rest, '<' :: rest = r ∧ skipSpaces s = '<' :: rest := by
  rintro s _ ⟨rest, rfl, hs⟩
  refine ⟨(IsLocal.spaces s _ hs).1, fun u v x y hu hv => ?_⟩
  have hspaces := (IsLocal.spaces s _ hs).2 u v x y hu hv
  cases v with
  | nil => exact ⟨'s' :: y, rfl, hspaces⟩
  | cons c v =>
      obtain rfl : '<' = c := (List.cons.inj hv).1
      exact ⟨v ++ tag y, rfl, hspaces⟩

def unmarkedStart? (s : List Char) : Option (Entities × List Char) :=
  (if "<?xml ".toList.isPrefixOf s then skipDeclaration? (s.drop 5) else some s).bind fun s =>
    (takeProlog? s).bind fun p =>
      match skipSpaces p.2 with
      | '<' :: rest => some (p.1, rest)
      | _ => none

theorem takeStart?_ofList (s : List Char) :
    takeStart? (.ofList s) = unmarkedStart? (if s.head? = some '\uFEFF' then s.drop 1 else s) := by
  unfold takeStart? unmarkedStart?
  simp only [String.toList_ofList]
  generalize (if s.head? = some '\uFEFF' then s.drop 1 else s) = chars
  cases "<?xml ".toList.isPrefixOf chars <;> rfl

theorem isLocal_unmarkedStart? (entities : Entities) : IsLocal fun s r =>
    ∃ rest, '<' :: rest = r ∧ unmarkedStart? s = some (entities, rest) := by
  refine (isLocal_declaration.comp <| (isLocal_takeProlog? entities).comp isLocal_root).of_iff fun s r => ?_
  have hroot (p : Entities × List Char) (rest : List Char) : (match skipSpaces p.2 with
      | '<' :: rest => some (p.1, rest)
      | _ => none) = some (entities, rest) ↔ p.1 = entities ∧ skipSpaces p.2 = '<' :: rest := by
    split
    · next hs => simp [hs]
    · next hs =>
      have hne : skipSpaces p.2 ≠ '<' :: rest := hs rest
      simp [hne]
  simp only [unmarkedStart?, Option.bind_eq_some_iff, hroot, Prod.exists]
  constructor
  · rintro ⟨rest, rfl, m, hm, _, m', hm', rfl, hrest⟩
    exact ⟨m, hm, m', hm', rest, rfl, hrest⟩
  · rintro ⟨m, hm, m', hm', rest, rfl, hrest⟩
    exact ⟨rest, rfl, m, hm, _, m', hm', rfl, hrest⟩

theorem isLocal_takeStart? (entities : Entities) : IsLocal fun s r =>
    ∃ rest, '<' :: rest = r ∧ takeStart? (.ofList s) = some (entities, rest) := by
  have hmarked := (IsLocal.text ['\uFEFF']).comp (isLocal_unmarkedStart? entities)
  have hother := (isLocal_unmarkedStart? entities).test (P := fun b => b = false)
    (isSteady_isPrefixOf ['\uFEFF'] (by decide))
  refine (hmarked.or hother).of_iff fun s r => ?_
  rw [takeStart?_ofList]
  cases s with
  | nil => simp
  | cons c s =>
      by_cases hc : c = '\uFEFF'
      · subst hc
        simp [List.isPrefixOf]
      · simp [hc, Ne.symm hc, List.isPrefixOf]

/-- What stands before the tag of the root does not depend on that tag, if its name begins with this letter. -/
theorem takeStart?_append_tag {before x : List Char} {entities : Entities}
    (h : takeStart? (.ofList (before ++ tag x)) = some (entities, 's' :: x)) (y : List Char) :
    takeStart? (.ofList (before ++ tag y)) = some (entities, 's' :: y) := by
  obtain ⟨rest, hrest, hstart⟩ := (isLocal_takeStart? entities _ (tag x) ⟨_, rfl, h⟩).2 before [] x y rfl rfl
  cases hrest
  exact hstart

end DesignCompiler.Xml

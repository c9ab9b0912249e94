import DesignCompiler.Proofs.Numerals

namespace DesignCompiler.Json

open Decimal

mutual

def floats : Json → List Float
  | .number (.float x) => [x]
  | .array items => floatsOfItems items
  | .object entries => floatsOfEntries entries
  | _ => []

def floatsOfItems : List Json → List Float
  | [] => []
  | item :: rest => floats item ++ floatsOfItems rest

def floatsOfEntries : List (String × Json) → List Float
  | [] => []
  | (_, value) :: rest => floats value ++ floatsOfEntries rest

end

mutual

def mapFloats (f : Float → Json) : Json → Json
  | .number (.float x) => f x
  | .array items => .array (mapFloatsOfItems f items)
  | .object entries => .object (mapFloatsOfEntries f entries)
  | value => value

def mapFloatsOfItems (f : Float → Json) : List Json → List Json
  | [] => []
  | item :: rest => mapFloats f item :: mapFloatsOfItems f rest

def mapFloatsOfEntries (f : Float → Json) : List (String × Json) → List (String × Json)
  | [] => []
  | (name, value) :: rest => (name, mapFloats f value) :: mapFloatsOfEntries f rest

end

mutual

/-- Whether the integers of a value fit 64 bits without sign and all of it can be read. -/
def IsPlain : Json → Prop
  | .number (.int i) => 0 ≤ i ∧ i ≤ maxWord
  | .array items => ArePlain items
  | .object entries => AreEntriesPlain entries
  | .unreadable => False
  | _ => True

def ArePlain : List Json → Prop
  | [] => True
  | item :: rest => IsPlain item ∧ ArePlain rest

def AreEntriesPlain : List (String × Json) → Prop
  | [] => True
  | (_, value) :: rest => IsPlain value ∧ AreEntriesPlain rest

end

/-- Induction on a value, in which arrays and objects have all their parts at once. -/
@[elab_as_elim]
theorem parts_induction {P : Json → Prop} (null : P .null) (bool : ∀ b, P (.bool b))
    (int : ∀ i, P (.number (.int i))) (float : ∀ x, P (.number (.float x))) (string : ∀ s, P (.string s))
    (array : ∀ items : List Json, (∀ item ∈ items, P item) → P (.array items))
    (object : ∀ entries : List (String × Json), (∀ entry ∈ entries, P entry.2) → P (.object entries))
    (unreadable : P .unreadable) : ∀ j : Json, P j
  | .null => null
  | .bool b => bool b
  | .number (.int i) => int i
  | .number (.float x) => float x
  | .string s => string s
  | .array items =>
    array items fun item _ =>
      parts_induction null bool int float string array object unreadable item
  | .object entries =>
    object entries fun entry _ =>
      parts_induction null bool int float string array object unreadable entry.2
  | .unreadable => unreadable
termination_by j => sizeOf j
decreasing_by
  · have := List.sizeOf_lt_of_mem ‹item ∈ items›
    simp only [Json.array.sizeOf_spec]
    omega
  · have := List.sizeOf_lt_of_mem ‹entry ∈ entries›
    obtain ⟨name, value⟩ := entry
    simp only [Json.object.sizeOf_spec, Prod.mk.sizeOf_spec] at this ⊢
    omega

theorem floats_array (items : List Json) : floats (.array items) = items.flatMap floats := by
  rw [floats]
  induction items with
  | nil => rfl
  | cons item rest ih => rw [floatsOfItems, ih, List.flatMap_cons]

theorem floats_object (entries : List (String × Json)) :
    floats (.object entries) = entries.flatMap fun entry => floats entry.2 := by
  rw [floats]
  induction entries with
  | nil => rfl
  | cons entry rest ih => rw [floatsOfEntries, ih, List.flatMap_cons]

theorem mapFloats_array (f : Float → Json) (items : List Json) :
    mapFloats f (.array items) = .array (items.map (mapFloats f)) := by
  rw [mapFloats]
  congr 1
  induction items with
  | nil => rfl
  | cons item rest ih => rw [mapFloatsOfItems, ih, List.map_cons]

theorem mapFloats_object (f : Float → Json) (entries : List (String × Json)) :
    mapFloats f (.object entries) = .object (entries.map fun entry => (entry.1, mapFloats f entry.2)) := by
  rw [mapFloats]
  congr 1
  induction entries with
  | nil => rfl
  | cons entry rest ih => rw [mapFloatsOfEntries, ih, List.map_cons]

theorem isPlain_array {items : List Json} : IsPlain (.array items) ↔ ∀ item ∈ items, IsPlain item := by
  rw [IsPlain]
  induction items with
  | nil => simp [ArePlain]
  | cons item rest ih => rw [ArePlain, ih, List.forall_mem_cons]

theorem isPlain_object {entries : List (String × Json)} :
    IsPlain (.object entries) ↔ ∀ entry ∈ entries, IsPlain entry.2 := by
  rw [IsPlain]
  induction entries with
  | nil => simp [AreEntriesPlain]
  | cons entry rest ih => rw [AreEntriesPlain, ih, List.forall_mem_cons]

theorem isReadable_array (levels : Nat) (items : List Json) :
    isReadable (levels + 1) (.array items) = items.all (isReadable levels) := by
  rw [isReadable]
  induction items with
  | nil => rfl
  | cons item rest ih => rw [areReadable, ih, List.all_cons]

theorem isReadable_object (levels : Nat) (entries : List (String × Json)) :
    isReadable (levels + 1) (.object entries) = entries.all fun entry => isReadable levels entry.2 := by
  rw [isReadable]
  induction entries with
  | nil => rfl
  | cons entry rest ih => rw [areEntriesReadable, ih, List.all_cons]

theorem mapFloats_congr {f g : Float → Json} (j : Json) (h : ∀ x ∈ j.floats, f x = g x) :
    j.mapFloats f = j.mapFloats g := by
  induction j using parts_induction with
  | null | bool b | int i | string s | unreadable => rfl
  | float x => exact h x List.mem_cons_self
  | array items ih =>
      rw [floats_array] at h
      rw [mapFloats_array, mapFloats_array]
      congr 1
      exact List.map_congr_left fun item hi => ih item hi fun x hx => h x (List.mem_flatMap.2 ⟨item, hi, hx⟩)
  | object entries ih =>
      rw [floats_object] at h
      rw [mapFloats_object, mapFloats_object]
      congr 1
      refine List.map_congr_left fun entry he => ?_
      rw [ih entry he fun x hx => h x (List.mem_flatMap.2 ⟨entry, he, hx⟩)]

theorem map_eq_self_iff {α : Type} {f : α → α} {l : List α} : l.map f = l ↔ ∀ a ∈ l, f a = a := by
  simpa using List.map_inj_left (l := l) (f := f) (g := id)

theorem mapFloats_eq_self_iff {f : Float → Json} (j : Json) :
    j.mapFloats f = j ↔ ∀ x ∈ j.floats, f x = float x := by
  induction j using parts_induction with
  | null | bool b | int i | string s | unreadable => simp [mapFloats, floats]
  | float x => simp [mapFloats, floats, float]
  | array items ih =>
      rw [floats_array, mapFloats_array, Json.array.injEq, map_eq_self_iff, List.forall_mem_flatMap]
      exact forall₂_congr ih
  | object entries ih =>
      rw [floats_object, mapFloats_object, Json.object.injEq, map_eq_self_iff, List.forall_mem_flatMap]
      refine forall₂_congr fun entry he => ?_
      rw [← ih entry he]
      exact ⟨fun h => congrArg Prod.snd h, fun h => by rw [h]⟩

/-- With other doubles, or none, in the places of its own, a value can be read if it could be before and
no double is missing. -/
theorem isReadable_mapFloats (g : Float → Option Float) (levels : Nat) (j : Json) :
    (j.mapFloats fun x => ofPart float (g x)).isReadable levels ↔
      j.isReadable levels ∧ ∀ x ∈ j.floats, (g x).isSome := by
  induction j using parts_induction generalizing levels with
  | null | bool b | int i | string s | unreadable => simp [mapFloats, floats, isReadable]
  | float x => cases hx : g x <;> simp [mapFloats, floats, isReadable, ofPart, float, hx]
  | array items ih =>
      rw [floats_array, mapFloats_array]
      cases levels with
      | zero => simp [isReadable]
      | succ levels =>
          simp only [isReadable_array, List.all_map, List.all_eq_true, Function.comp_apply,
            List.forall_mem_flatMap]
          exact (forall₂_congr fun item hi => ih item hi levels).trans (by simp only [imp_and, forall_and])
  | object entries ih =>
      rw [floats_object, mapFloats_object]
      cases levels with
      | zero => simp [isReadable]
      | succ levels =>
          simp only [isReadable_object, List.all_map, List.all_eq_true, Function.comp_apply,
            List.forall_mem_flatMap]
          exact (forall₂_congr fun entry he => ih entry he levels).trans (by simp only [imp_and, forall_and])

/-- What may stand after a number: nothing that could belong to it. -/
def Follows (rest : Chars) : Prop := ∀ c ∈ rest.head?, c.any isNumberChar = false

theorem readNumberOf?_append {s : List Char} (hs : ∀ c ∈ s, isNumberChar c) {n : Option Number}
    (hn : readNumber? s = some (n, [])) {rest : Chars} (hrest : Follows rest) :
    readNumberOf? (s.map some ++ rest) = some (n, rest) := by
  have htake : (s.map some ++ rest).takeWhile (·.any isNumberChar) = s.map some := by
    rw [List.takeWhile_append_of_pos (by simpa using hs)]
    cases rest with
    | nil => simp
    | cons c rest =>
        have hc := hrest c rfl
        simp [hc]
  have hall : (s.map some).filterMap id = s := by simp
  rw [readNumberOf?, htake, hall, hn]
  simp

theorem hexValue?_hexDigit : ∀ n < 16, hexValue? (hexDigit n) = some n := by decide

theorem readString?_cons {c : Char} (hquote : c ≠ '"') (hslash : c ≠ '\\') (hcontrol : ¬ c.toNat < 0x20)
    (done : List Char) (fuel : Nat) (rest : Chars) :
    readString? (some done) (fuel + 1) (some c :: rest) = readString? (some (c :: done)) fuel rest := by
  rw [readString?]
  · simp [hcontrol]
  · simpa using hquote
  · simpa using hslash

theorem readEscape?_control {c : Char} (h : c.toNat < 0x20) (rest : Chars) :
    readEscape? (some 'u' :: some '0' :: some '0' :: some (hexDigit (c.toNat / 16)) ::
      some (hexDigit (c.toNat % 16)) :: rest) = some (some c, rest) := by
  have hhigh := hexValue?_hexDigit (c.toNat / 16) (by omega)
  have hlow := hexValue?_hexDigit (c.toNat % 16) (by omega)
  have hzero : hexValue? '0' = some 0 := rfl
  have hunit : c.toNat / 16 * 16 + c.toNat % 16 = c.toNat := by omega
  have hlt : c.toNat < 0xD800 := by omega
  simp [readEscape?, readEscapedUnit?, readUnit?, hhigh, hlow, hzero, hunit, hlt]
theorem readString?_escapeChar (c : Char) (done : List Char) (fuel : Nat) (rest : Chars) :
    readString? (some done) (fuel + 1) ((escapeChar c).map some ++ rest) =
      readString? (some (c :: done)) fuel rest := by
  unfold escapeChar
  split
  · rfl
  · rfl
  · rfl
  · rfl
  · rfl
  · rfl
  · rfl
  · next hquote hslash _ _ _ _ _ =>
    split
    · next hcontrol =>
      simp only [List.map_cons, List.map_nil, List.cons_append, List.nil_append, readString?,
        readEscape?_control hcontrol]
      rfl
    · next hcontrol => exact readString?_cons hquote hslash hcontrol done fuel rest

theorem readString?_chars (chars done : List Char) {fuel : Nat} (hfuel : chars.length < fuel) (rest : Chars) :
    readString? (some done) fuel ((chars.flatMap escapeChar).map some ++ some '"' :: rest) =
      some (some (.ofList (done.reverse ++ chars)), rest) := by
  induction chars generalizing done fuel with
  | nil =>
      obtain ⟨fuel, rfl⟩ := Nat.exists_eq_succ_of_ne_zero (Nat.ne_of_gt hfuel)
      simp [readString?]
  | cons c chars ih =>
      obtain ⟨fuel, rfl⟩ := Nat.exists_eq_succ_of_ne_zero (Nat.ne_of_gt (Nat.zero_lt_of_lt hfuel))
      rw [List.flatMap_cons, List.map_append, List.append_assoc, readString?_escapeChar,
        ih (c :: done) (by simpa using hfuel)]
      simp

theorem length_le_length_flatMap_escapeChar (chars : List Char) :
    chars.length ≤ (chars.flatMap escapeChar).length := by
  induction chars with
  | nil => simp
  | cons c chars ih =>
      have hpos : 1 ≤ (escapeChar c).length := by
        unfold escapeChar
        split
        all_goals first | simp | (split <;> simp)
      simp only [List.flatMap_cons, List.length_append, List.length_cons]
      omega

def text (j : Json) : Chars := j.render.toList.map some

def stringTail (s : String) : Chars := (s.toList.flatMap escapeChar).map some ++ [some '"']

theorem text_quote (s : String) : (quote s).toList.map some = some '"' :: stringTail s := by
  simp [quote, stringTail]

theorem readString?_stringTail (s : String) (rest : Chars) :
    readString? (some []) ((stringTail s ++ rest).length + 1) (stringTail s ++ rest) =
      some (some s, rest) := by
  have hlength := length_le_length_flatMap_escapeChar s.toList
  rw [stringTail, List.append_assoc, List.singleton_append, readString?_chars]
  · simp
  · simp only [List.length_append, List.length_map, List.length_cons]
    omega

def itemsText (items : List Json) : Chars := (",".intercalate (renderItems items)).toList.map some

def entriesText (entries : List (String × Json)) : Chars :=
  (",".intercalate (renderEntries entries)).toList.map some

theorem text_array (items : List Json) :
    text (.array items) = some '[' :: (itemsText items ++ [some ']']) := by
  simp [text, render, itemsText]

theorem text_object (entries : List (String × Json)) :
    text (.object entries) = some '{' :: (entriesText entries ++ [some '}']) := by
  simp [text, render, entriesText]

theorem itemsText_singleton (item : Json) : itemsText [item] = text item := by
  simp [itemsText, renderItems, text]

theorem itemsText_cons_cons (item next : Json) (rest : List Json) :
    itemsText (item :: next :: rest) = text item ++ some ',' :: itemsText (next :: rest) := by
  simp [itemsText, renderItems, text, String.intercalate_cons_cons]

def entryTail (entry : String × Json) : Chars := stringTail entry.1 ++ some ':' :: text entry.2

theorem entriesText_singleton (entry : String × Json) :
    entriesText [entry] = some '"' :: entryTail entry := by
  simp [entriesText, renderEntries, text, entryTail, text_quote]

theorem entriesText_cons_cons (entry next : String × Json) (rest : List (String × Json)) :
    entriesText (entry :: next :: rest) =
      some '"' :: (entryTail entry ++ some ',' :: entriesText (next :: rest)) := by
  simp [entriesText, renderEntries, text, entryTail, text_quote, String.intercalate_cons_cons]

theorem skipSpace_cons {c : Char} (h : isSpace c = false) (s : Chars) :
    skipSpace (some c :: s) = some c :: s := by
  simp [skipSpace, h]

/-- The text of `j`, before anything that may follow it, is read as `k`. Two units of fuel for a character
are enough: a bracket or a comma pays for the step into a list and for the step to a value. -/
def Reads (j k : Json) : Prop :=
  ∀ fuel rest, 2 * (text j).length ≤ fuel → Follows rest → readValue? fuel (text j ++ rest) = some (k, rest)

theorem follows_cons {c : Char} (h : isNumberChar c = false) (rest : Chars) : Follows (some c :: rest) := by
  rintro _ ⟨⟩
  exact h

section Steps

variable {fuel : Nat} {s more rest : Chars} {item : Json} {items : List Json}

theorem readItems?_last (h : readValue? fuel s = some (item, some ']' :: rest)) :
    readItems? (fuel + 1) s = some ([item], rest) := by
  rw [readItems?, h]
  rfl

theorem readItems?_more (h : readValue? fuel s = some (item, some ',' :: more))
    (hmore : readItems? fuel more = some (items, rest)) :
    readItems? (fuel + 1) s = some (item :: items, rest) := by
  rw [readItems?, h]
  change (readItems? fuel more).map _ = _
  rw [hmore]
  rfl

variable {name : String} {value : Json} {entries : List (String × Json)}

theorem readEntries?_last (h : readValue? fuel s = some (value, some '\x7d' :: rest)) :
    readEntries? (fuel + 1) (some '"' :: (stringTail name ++ some ':' :: s)) =
      some (some [(name, value)], rest) := by
  have hcolon : skipSpace (some ':' :: s) = some ':' :: s := skipSpace_cons rfl _
  have hclose : skipSpace (some '\x7d' :: rest) = some '\x7d' :: rest := skipSpace_cons rfl _
  rw [readEntries?, skipSpace_cons rfl]
  simp only [readString?_stringTail, hcolon, h, hclose, Option.map_some]

theorem readEntries?_more (h : readValue? fuel s = some (value, some ',' :: more))
    (hmore : readEntries? fuel more = some (some entries, rest)) :
    readEntries? (fuel + 1) (some '"' :: (stringTail name ++ some ':' :: s)) =
      some (some ((name, value) :: entries), rest) := by
  have hcolon : skipSpace (some ':' :: s) = some ':' :: s := skipSpace_cons rfl _
  have hcomma : skipSpace (some ',' :: more) = some ',' :: more := skipSpace_cons rfl _
  rw [readEntries?, skipSpace_cons rfl]
  simp only [readString?_stringTail, hcolon, h, hcomma, hmore, Option.map_some, Option.bind_some]

end Steps

theorem readItems?_itemsText {f : Json → Json} {items : List Json} (hne : items ≠ [])
    (h : ∀ item ∈ items, Reads item (f item)) {fuel : Nat} (hfuel : 2 * (itemsText items).length < fuel)
    (rest : Chars) :
    readItems? fuel (itemsText items ++ some ']' :: rest) = some (items.map f, rest) := by
  induction items generalizing fuel with
  | nil => exact absurd rfl hne
  | cons item items ih =>
      obtain ⟨fuel, rfl⟩ := Nat.exists_eq_succ_of_ne_zero (Nat.ne_of_gt (Nat.zero_lt_of_lt hfuel))
      have hitem := h item List.mem_cons_self
      cases items with
      | nil =>
          rw [itemsText_singleton] at hfuel ⊢
          exact readItems?_last (hitem fuel _ (by omega) (follows_cons rfl rest))
      | cons next items =>
          rw [itemsText_cons_cons] at hfuel ⊢
          simp only [List.length_append, List.length_cons] at hfuel
          rw [List.append_assoc, List.cons_append]
          exact readItems?_more (hitem fuel _ (by omega) (follows_cons rfl _))
            (ih (by simp) (fun i hi => h i (List.mem_cons_of_mem _ hi)) (by omega))

theorem readEntries?_entriesText {f : Json → Json} {entries : List (String × Json)} (hne : entries ≠ [])
    (h : ∀ entry ∈ entries, Reads entry.2 (f entry.2)) {fuel : Nat}
    (hfuel : 2 * (entriesText entries).length < fuel) (rest : Chars) :
    readEntries? fuel (entriesText entries ++ some '\x7d' :: rest) =
      some (some (entries.map fun entry => (entry.1, f entry.2)), rest) := by
  induction entries generalizing fuel with
  | nil => exact absurd rfl hne
  | cons entry entries ih =>
      obtain ⟨fuel, rfl⟩ := Nat.exists_eq_succ_of_ne_zero (Nat.ne_of_gt (Nat.zero_lt_of_lt hfuel))
      have hvalue := h entry List.mem_cons_self
      cases entries with
      | nil =>
          rw [entriesText_singleton, entryTail] at hfuel ⊢
          simp only [List.length_append, List.length_cons] at hfuel
          rw [List.cons_append, List.append_assoc, List.cons_append]
          exact readEntries?_last (hvalue fuel _ (by omega) (follows_cons rfl rest))
      | cons next entries =>
          rw [entriesText_cons_cons, entryTail] at hfuel ⊢
          simp only [List.length_append, List.length_cons] at hfuel
          rw [List.cons_append, List.append_assoc, List.append_assoc, List.cons_append, List.cons_append]
          exact readEntries?_more (hvalue fuel _ (by omega) (follows_cons rfl _))
            (ih (by simp) (fun e he => h e (List.mem_cons_of_mem _ he)) (by omega))

def IsNumberHead (c : Char) : Prop := c.isDigit ∨ c = '-'

theorem IsNumberHead.ne {c d : Char} (h : IsNumberHead c) (hdigit : d.isDigit = false) (hminus : d ≠ '-') :
    c ≠ d := by
  rintro rfl
  rcases h with h | rfl
  · rw [hdigit] at h
    cases h
  · exact hminus rfl

theorem IsNumberHead.isSpace {c : Char} (h : IsNumberHead c) : isSpace c = false := by
  simp [Json.isSpace, h.ne]

theorem readValue?_number {c : Char} (h : IsNumberHead c) (fuel : Nat) (s : Chars) :
    readValue? (fuel + 1) (some c :: s) =
      (readNumberOf? (some c :: s)).map fun (n, r) => (ofPart .number n, r) := by
  rw [readValue?, skipSpace_cons h.isSpace]
  simp [h.ne]

/-- The text of a number is read as whatever its numeral is. -/
theorem reads_number {n : Number} {m : Numeral} (hm : m.WellFormed) (htext : n.render.toList = m.chars)
    {r : Option Number} (hread : readNumber? m.chars = some (r, [])) :
    Reads (.number n) (ofPart .number r) := by
  intro fuel rest hfuel hrest
  obtain ⟨c, cs, hchars, hhead⟩ := exists_chars_eq hm
  have hvalue : text (.number n) = m.chars.map some := by rw [text, render, htext]
  have hnumber := readNumberOf?_append (isNumberChar_chars hm) hread hrest
  rw [hvalue] at hfuel ⊢
  rw [hchars] at hfuel hnumber ⊢
  obtain ⟨fuel, rfl⟩ := Nat.exists_eq_succ_of_ne_zero (n := fuel) (by simp at hfuel; omega)
  rw [List.map_cons, List.cons_append] at hnumber ⊢
  rw [readValue?_number hhead, hnumber]
  rfl

theorem readValue?_array {c : Char} (hspace : isSpace c = false) (hclose : c ≠ ']') (fuel : Nat) (s : Chars) :
    readValue? (fuel + 1) (some '[' :: some c :: s) =
      (readItems? fuel (some c :: s)).map fun (items, r) => (.array items, r) := by
  rw [readValue?, skipSpace_cons rfl]
  simp only [skipSpace_cons hspace]
  simp [hclose]

theorem readValue?_object (fuel : Nat) (s : Chars) :
    readValue? (fuel + 1) (some '\x7b' :: some '"' :: s) =
      (readEntries? fuel (some '"' :: s)).map fun (entries, r) => (ofPart .object entries, r) := by
  rw [readValue?, skipSpace_cons rfl]
  rfl

theorem exists_text_eq {j : Json} (hplain : j.IsPlain) (hfinite : ∀ x ∈ j.floats, x.isFinite) :
    ∃ c s, text j = some c :: s ∧ isSpace c = false ∧ c ≠ ']' := by
  have hnumber : ∀ {n : Number} {m : Numeral}, m.WellFormed → n.render.toList = m.chars →
      ∃ c s, text (.number n) = some c :: s ∧ isSpace c = false ∧ c ≠ ']' := by
    intro n m hm htext
    obtain ⟨c, cs, hchars, hhead⟩ := exists_chars_eq hm
    have hc : IsNumberHead c := hhead
    exact ⟨c, cs.map some, by rw [text, render, htext, hchars]; rfl, hc.isSpace, hc.ne rfl (by decide)⟩
  cases j with
  | null => exact ⟨'n', _, rfl, rfl, by decide⟩
  | bool b => cases b with
    | true => exact ⟨'t', _, rfl, rfl, by decide⟩
    | false => exact ⟨'f', _, rfl, rfl, by decide⟩
  | number n => cases n with
    | int i =>
        obtain ⟨k, rfl⟩ := Int.eq_ofNat_of_zero_le hplain.1
        obtain ⟨m, hm, htext, -⟩ := exists_numeral_nat (Int.ofNat_le.1 hplain.2)
        exact hnumber hm htext
    | float x =>
        obtain ⟨m, hm, htext, -⟩ := exists_numeral_float (hfinite x List.mem_cons_self)
        exact hnumber hm htext
  | string s => exact ⟨'"', stringTail s, text_quote s, rfl, by decide⟩
  | array items => exact ⟨'[', _, text_array items, rfl, by decide⟩
  | object entries => exact ⟨'\x7b', _, text_object entries, rfl, by decide⟩
  | unreadable => exact hplain.elim

theorem exists_itemsText_eq {item : Json} (hplain : item.IsPlain) (hfinite : ∀ x ∈ item.floats, x.isFinite)
    (items : List Json) :
    ∃ c s, itemsText (item :: items) = some c :: s ∧ isSpace c = false ∧ c ≠ ']' := by
  obtain ⟨c, s, hs, hspace, hclose⟩ := exists_text_eq hplain hfinite
  cases items with
  | nil => exact ⟨c, s, by rw [itemsText_singleton, hs], hspace, hclose⟩
  | cons next items => exact ⟨c, _, by rw [itemsText_cons_cons, hs]; rfl, hspace, hclose⟩

theorem exists_entriesText_eq (entry : String × Json) (entries : List (String × Json)) :
    ∃ s, entriesText (entry :: entries) = some '"' :: s := by
  cases entries with
  | nil => exact ⟨_, entriesText_singleton entry⟩
  | cons next entries => exact ⟨_, entriesText_cons_cons entry next entries⟩

def reread (j : Json) : Json := j.mapFloats fun x => ofPart float (reread? x)

theorem reads_string (s : String) : Reads (.string s) (.string s) := by
  intro fuel rest hfuel hrest
  have htext : text (.string s) = some '"' :: stringTail s := text_quote s
  rw [htext] at hfuel ⊢
  obtain ⟨fuel, rfl⟩ := Nat.exists_eq_succ_of_ne_zero (n := fuel) (by simp at hfuel; omega)
  rw [List.cons_append, readValue?, skipSpace_cons rfl]
  change (readString? (some []) ((stringTail s ++ rest).length + 1) (stringTail s ++ rest)).map _ = _
  rw [readString?_stringTail]
  rfl

theorem reads_array {items : List Json} {f : Json → Json} (hplain : ∀ item ∈ items, item.IsPlain)
    (hfinite : ∀ item ∈ items, ∀ x ∈ item.floats, x.isFinite) (h : ∀ item ∈ items, Reads item (f item)) :
    Reads (.array items) (.array (items.map f)) := by
  intro fuel rest hfuel hrest
  rw [text_array] at hfuel ⊢
  simp only [List.length_cons, List.length_append] at hfuel
  obtain ⟨fuel, rfl⟩ := Nat.exists_eq_succ_of_ne_zero (n := fuel) (by omega)
  rw [List.cons_append, List.append_assoc, List.singleton_append]
  rcases items with _ | ⟨item, items⟩
  · rfl
  have hread := readItems?_itemsText (by simp) h
    (show 2 * (itemsText (item :: items)).length < fuel by omega) rest
  obtain ⟨c, s, hs, hspace, hclose⟩ := exists_itemsText_eq (hplain item List.mem_cons_self)
    (hfinite item List.mem_cons_self) items
  rw [hs, List.cons_append] at hread ⊢
  rw [readValue?_array hspace hclose, hread]
  rfl

theorem reads_object {entries : List (String × Json)} {f : Json → Json}
    (h : ∀ entry ∈ entries, Reads entry.2 (f entry.2)) :
    Reads (.object entries) (.object (entries.map fun entry => (entry.1, f entry.2))) := by
  intro fuel rest hfuel hrest
  rw [text_object] at hfuel ⊢
  simp only [List.length_cons, List.length_append] at hfuel
  obtain ⟨fuel, rfl⟩ := Nat.exists_eq_succ_of_ne_zero (n := fuel) (by omega)
  rw [List.cons_append, List.append_assoc, List.singleton_append]
  rcases entries with _ | ⟨entry, entries⟩
  · rfl
  have hread := readEntries?_entriesText (by simp) h
    (show 2 * (entriesText (entry :: entries)).length < fuel by omega) rest
  obtain ⟨s, hs⟩ := exists_entriesText_eq entry entries
  rw [hs, List.cons_append] at hread ⊢
  rw [readValue?_object, hread]
  rfl

theorem reads_reread (j : Json) (hplain : j.IsPlain) (hfinite : ∀ x ∈ j.floats, x.isFinite) :
    Reads j j.reread := by
  induction j using parts_induction with
  | null =>
      intro fuel rest hfuel hrest
      obtain ⟨fuel, rfl⟩ := Nat.exists_eq_succ_of_ne_zero (n := fuel) (by rintro rfl; cases hfuel)
      rfl
  | bool b =>
      intro fuel rest hfuel hrest
      obtain ⟨fuel, rfl⟩ := Nat.exists_eq_succ_of_ne_zero (n := fuel) (by rintro rfl; cases b <;> cases hfuel)
      cases b <;> rfl
  | int i =>
      obtain ⟨k, rfl⟩ := Int.eq_ofNat_of_zero_le hplain.1
      obtain ⟨m, hm, htext, hread⟩ := exists_numeral_nat (Int.ofNat_le.1 hplain.2)
      exact reads_number hm htext hread
  | float x =>
      obtain ⟨m, hm, htext, hread⟩ := exists_numeral_float (hfinite x List.mem_cons_self)
      have hresult := reads_number hm htext hread
      rw [reread, mapFloats]
      cases hx : reread? x with
      | none =>
          rw [hx] at hresult
          exact hresult
      | some y =>
          rw [hx] at hresult
          exact hresult
  | string s => exact reads_string s
  | array items ih =>
      rw [isPlain_array] at hplain
      rw [floats_array, List.forall_mem_flatMap] at hfinite
      rw [reread, mapFloats_array]
      exact reads_array hplain hfinite fun item hi => ih item hi (hplain item hi) (hfinite item hi)
  | object entries ih =>
      rw [isPlain_object] at hplain
      rw [floats_object, List.forall_mem_flatMap] at hfinite
      rw [reread, mapFloats_object]
      exact reads_object fun entry he => ih entry he (hplain entry he) (hfinite entry he)
  | unreadable => exact hplain.elim

/-- The whole text of a value is read as the value with its doubles read back. -/
theorem read?_render {j : Json} (hplain : j.IsPlain) (hfinite : ∀ x ∈ j.floats, x.isFinite) :
    read? j.render = some j.reread := by
  have hread := reads_reread j hplain hfinite (2 * (text j).length + 2) [] (by omega) (by simp [Follows])
  rw [List.append_nil] at hread
  change readChars? (text j) = _
  rw [readChars?, hread]
  rfl

theorem parse?_render {j : Json} (hplain : j.IsPlain) (hfinite : ∀ x ∈ j.floats, x.isFinite) :
    parse? j.render = (some j.reread).filter (isReadable maxLevels) := by
  rw [parse?, read?_render hplain hfinite]

end DesignCompiler.Json

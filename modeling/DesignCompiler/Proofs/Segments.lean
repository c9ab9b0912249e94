import DesignCompiler.Proofs.Insertion
import DesignCompiler.Proofs.Occurrences

namespace DesignCompiler.Params

open Text

theorem split_ne_nil (mark s : String) : split mark s ≠ [] :=
  fun h => splitChars_ne_nil mark.toList s.toList (List.map_eq_nil_iff.1 h)

namespace Setting

def ofEntry (nested : List Char) : Entry → Setting
  | (key, value) =>
    { path := (splitChars nested key).map String.ofList
      value := value.map String.ofList
      path_ne_nil := fun h => splitChars_ne_nil nested key (List.map_eq_nil_iff.1 h) }

theorem apply_ofEntry (m : Marks) (e : Entry) (params : Params) :
    (ofEntry m.nested e).apply params = insertEntry m params e := by
  obtain ⟨key, _ | value⟩ := e <;> rfl

end Setting

theorem foldl_insertEntry (m : Marks) (entries : List Entry) :
    entries.foldl (insertEntry m) [] = ofSettings (entries.map (Setting.ofEntry m.nested)) := by
  rw [ofSettings, List.foldl_map]
  congr 1
  funext params e
  exact (Setting.apply_ofEntry m e params).symm

theorem parse_of_cut? {d : Delimiters} {name : String} {before block : List Char}
    (h : cut? d.slot.toList name.toList = some (before, block)) :
    parse d name =
      match entries? (.of d) block with
      | none => []
      | some entries => ofSettings (entries.map (Setting.ofEntry d.nested.toList)) := by
  have hcut : cut? (Marks.of d).slot name.toList = some (before, block) := h
  rw [parse, hcut]
  cases hentries : entries? (.of d) block with
  | none => simp [hentries]
  | some entries =>
      simp only [hentries]
      exact foldl_insertEntry (.of d) entries

theorem parse_of_cut?_eq_none {d : Delimiters} {name : String}
    (h : cut? d.slot.toList name.toList = none) : parse d name = [] := by
  have hcut : cut? (Marks.of d).slot name.toList = none := h
  rw [parse, hcut]

section Reading

variable {m : Marks} {s next : List Char} {e : Entry}

theorem entries?_of_takeEntry_eq_none (h : takeEntry m s = none) : entries? m s = none := by
  rw [entries?]
  split
  · rfl
  · next hsome =>
    rw [h] at hsome
    cases hsome

theorem entries?_last (hpair : m.pair ≠ []) (h : takeEntry m s = some (e, [])) :
    entries? m s = some [e] := by
  rw [entries?]
  split
  · next hnone =>
    rw [h] at hnone
    cases hnone
  · next hsome =>
    rw [h] at hsome
    cases hsome
    simp [hpair]

theorem entries?_more (hpair : m.pair ≠ []) (h : takeEntry m s = some (e, m.pair ++ next)) :
    entries? m s = (entries? m next).map (e :: ·) := by
  rw [entries?]
  split
  · next hnone =>
    rw [h] at hnone
    cases hnone
  · next hsome =>
    rw [h] at hsome
    cases hsome
    rw [if_neg (by simp [hpair]), if_neg (by simp [hpair])]
    split
    · next hafter =>
      rw [after?_append] at hafter
      cases hafter
    · next hafter =>
      rw [after?_append] at hafter
      cases hafter
      rfl

end Reading

def entryOf (keyValue segment : List Char) : Entry :=
  match cut? keyValue segment with
  | none => (segment, none)
  | some (key, value) => (key, some value)

variable {m : Marks}

theorem notMem_head?_of_pair {tail : List Char} (hpair : m.pair ≠ [])
    (hd : ∀ c ∈ m.pair, c ∉ m.keyValue) (htail : tail = [] ∨ m.pair <+: tail) :
    ∀ c ∈ tail.head?, c ∉ m.keyValue := by
  rcases htail with rfl | ⟨rest, rfl⟩
  · simp
  · obtain ⟨d, pair, hcons⟩ := List.exists_cons_of_ne_nil hpair
    intro c hc
    rw [hcons] at hc
    cases hc
    exact hd _ (by simp [hcons])

theorem after?_keyValue_eq_none {tail : List Char} (hkeyValue : m.keyValue ≠ [])
    (htail : ∀ c ∈ tail.head?, c ∉ m.keyValue) : after? m.keyValue tail = none := by
  rw [after?_eq_none_iff]
  rintro ⟨rest, rfl⟩
  obtain ⟨c, keyValue, hcons⟩ := List.exists_cons_of_ne_nil hkeyValue
  exact htail c (by simp [hcons]) (by simp [hcons])

theorem takeEntry_segment {segment tail : List Char} (hpair : m.pair ≠ []) (hkeyValue : m.keyValue ≠ [])
    (hd : ∀ c ∈ m.pair, c ∉ m.keyValue) (hsegment : Unmarked [m.pair] segment tail)
    (htail : tail = [] ∨ m.pair <+: tail) :
    takeEntry m (segment ++ tail) =
      if (entryOf m.keyValue segment).1.isEmpty then none
      else some (entryOf m.keyValue segment, tail) := by
  have hne : [] ∉ [m.pair, m.keyValue] := by simp [hpair.symm, hkeyValue.symm]
  have hhead := notMem_head?_of_pair hpair hd htail
  have hone : ∀ {s}, Unmarked [m.pair] s tail → breakAt [m.pair] (s ++ tail) = (s, tail) := fun hs =>
    breakAt_of_unmarked (by simp [hpair.symm]) hs (htail.imp_right fun h => ⟨_, by simp, h⟩)
  rw [takeEntry, entryOf]
  cases hcut : cut? m.keyValue segment with
  | none =>
      have hboth : Unmarked [m.pair, m.keyValue] segment tail :=
        Unmarked.pair_iff.2 ⟨hsegment, .of_not_isInfix (cut?_eq_none_iff.1 hcut) hhead⟩
      rw [breakAt_of_unmarked hne hboth (htail.imp_right fun h => ⟨_, by simp, h⟩)]
      dsimp only
      rw [after?_keyValue_eq_none hkeyValue hhead]
  | some cut =>
      -- The value may hold the mark before values again: it is read up to a pair mark only.
      obtain ⟨key, value⟩ := cut
      obtain rfl := eq_append_of_cut? hcut
      rw [List.append_assoc, Unmarked.append_iff, Unmarked.append_iff] at hsegment
      obtain ⟨hkey, -, hvalue⟩ := hsegment
      have hboth : Unmarked [m.pair, m.keyValue] key (m.keyValue ++ (value ++ tail)) := by
        rw [List.append_assoc] at hkey
        exact Unmarked.pair_iff.2 ⟨hkey, (unmarked_of_cut? hcut).append_congr _⟩
      rw [List.append_assoc, List.append_assoc,
        breakAt_of_unmarked hne hboth (.inr ⟨_, by simp, List.prefix_append ..⟩)]
      dsimp only
      rw [after?_append]
      dsimp only
      rw [hone hvalue]

theorem entries?_eq (hpair : m.pair ≠ []) (hkeyValue : m.keyValue ≠ [])
    (hd : ∀ c ∈ m.pair, c ∉ m.keyValue) (block : List Char) :
    entries? m block =
      if (splitChars m.pair block).any fun segment => (entryOf m.keyValue segment).1.isEmpty then none
      else some ((splitChars m.pair block).map (entryOf m.keyValue)) := by
  -- What is left of a block after a segment and a pair mark is shorter than the block.
  induction hk : block.length using Nat.strongRecOn generalizing block with
  | ind k ih =>
      cases hcut : cut? m.pair block with
      | none =>
          have hinfix := cut?_eq_none_iff.1 hcut
          have hunmarked : Unmarked [m.pair] block [] := .of_not_isInfix hinfix (by simp)
          have hentry := takeEntry_segment hpair hkeyValue hd hunmarked (.inl rfl)
          rw [List.append_nil] at hentry
          rw [splitChars_of_not_isInfix hpair hinfix]
          by_cases hkey : (entryOf m.keyValue block).1.isEmpty
          · rw [if_pos hkey] at hentry
            simp [entries?_of_takeEntry_eq_none hentry, hkey]
          · rw [if_neg hkey] at hentry
            simp [entries?_last hpair hentry, hkey]
      | some cut =>
          obtain ⟨segment, rest⟩ := cut
          have hlt := length_lt_of_cut? hpair hcut
          obtain rfl := eq_append_of_cut? hcut
          have hsegment := unmarked_of_cut? hcut
          have hentry := takeEntry_segment hpair hkeyValue hd hsegment (.inr (List.prefix_append ..))
          rw [List.append_assoc, splitChars_of_unmarked hpair hsegment]
          by_cases hkey : (entryOf m.keyValue segment).1.isEmpty
          · rw [if_pos hkey] at hentry
            simp [entries?_of_takeEntry_eq_none hentry, hkey]
          · rw [if_neg hkey] at hentry
            rw [entries?_more hpair hentry, ih _ (hk ▸ hlt) rest rfl]
            split <;> simp_all

/-- What a segment sets: its key is the text before the first key-value mark, and what follows that mark is
the value. -/
def Setting.ofSegment (d : Delimiters) (segment : String) : Setting :=
  match splitOnce? d.keyValue segment with
  | none => ⟨split d.nested segment, none, split_ne_nil d.nested segment⟩
  | some (key, value) => ⟨split d.nested key, some value, split_ne_nil d.nested key⟩

def lacksKey (d : Delimiters) (segment : String) : Bool :=
  segment = "" || startsWith d.keyValue segment

def bySegments (d : Delimiters) (name : String) : Params :=
  match splitOnce? d.slot name with
  | none => []
  | some (_, block) =>
    let segments := split d.pair block
    if segments.any (lacksKey d) then [] else ofSettings (segments.map (Setting.ofSegment d))

theorem lacksKey_ofList (d : Delimiters) (segment : List Char) :
    lacksKey d (.ofList segment) = (entryOf d.keyValue.toList segment).1.isEmpty := by
  rw [lacksKey, startsWith, String.toList_ofList, entryOf]
  cases segment with
  | nil =>
      cases hafter : after? d.keyValue.toList [] with
      | some rest => simp [cut?, hafter]
      | none => simp [cut?, hafter]
  | cons c segment =>
      cases hafter : after? d.keyValue.toList (c :: segment) with
      | some rest => simp [cut?, hafter]
      | none => cases hcut : cut? d.keyValue.toList segment <;> simp [cut?, hafter, hcut]

theorem ofSegment_ofList (d : Delimiters) (segment : List Char) :
    Setting.ofSegment d (.ofList segment) =
      Setting.ofEntry d.nested.toList (entryOf d.keyValue.toList segment) := by
  rw [Setting.ofSegment, splitOnce?, String.toList_ofList, entryOf]
  cases cut? d.keyValue.toList segment with
  | none => simp [Setting.ofEntry, split]
  | some cut => simp [Setting.ofEntry, split]

/-- Where the marks of pairs and values have no character in common, the parameters of a name are those of
the segments of its block. -/
theorem parse_eq_bySegments {d : Delimiters} (hpair : d.pair ≠ "") (hkeyValue : d.keyValue ≠ "")
    (hd : ∀ c ∈ d.pair.toList, c ∉ d.keyValue.toList) (name : String) : parse d name = bySegments d name := by
  rw [bySegments, splitOnce?]
  cases hcut : cut? d.slot.toList name.toList with
  | none => exact parse_of_cut?_eq_none hcut
  | some cut =>
      obtain ⟨before, block⟩ := cut
      have hentries := entries?_eq (m := .of d) (by simpa [Marks.of] using hpair)
        (by simpa [Marks.of] using hkeyValue) hd block
      have hany : (split d.pair (.ofList block)).any (lacksKey d) =
          (splitChars (Marks.of d).pair block).any fun segment =>
            (entryOf (Marks.of d).keyValue segment).1.isEmpty := by
        rw [split, String.toList_ofList, List.any_map]
        congr 1
        funext segment
        exact lacksKey_ofList d segment
      have hmap : (split d.pair (.ofList block)).map (Setting.ofSegment d) =
          ((splitChars (Marks.of d).pair block).map (entryOf (Marks.of d).keyValue)).map
            (Setting.ofEntry d.nested.toList) := by
        rw [split, String.toList_ofList, List.map_map, List.map_map]
        congr 1
        funext segment
        exact ofSegment_ofList d segment
      rw [parse_of_cut? hcut, hentries]
      dsimp only [Option.map_some]
      rw [hany, hmap]
      cases (splitChars (Marks.of d).pair block).any fun segment =>
        (entryOf (Marks.of d).keyValue segment).1.isEmpty <;> rfl

def longMarks : Delimiters := ⟨"::", "&&", "->", "/"⟩

/-- A value may hold the mark before values, and a key the mark before blocks. -/
theorem parse_eq_bySegments_longMarks :
    Table.keys (parse longMarks "Card::a->1->2&&style/gap&&b::c->") = ["a", "style", "b::c"] ∧
      value? "a" (parse longMarks "Card::a->1->2&&style/gap&&b::c->") = some "1->2" := by
  have hparse := parse_eq_bySegments (d := longMarks) (by decide) (by decide) (by simp [longMarks])
    "Card::a->1->2&&style/gap&&b::c->"
  rw [hparse]
  decide +kernel

end DesignCompiler.Params

import Mathlib.Data.List.Nodup
import DesignCompiler.Proofs.Segments

namespace DesignCompiler.Params

open Text

namespace Setting

def text (d : Delimiters) (s : Setting) : String :=
  d.nested.intercalate s.path ++ (s.value.map fun v => d.keyValue ++ v).getD ""

def key (m : Marks) (s : Setting) : List Char := m.nested.intercalate (s.path.map String.toList)

def chars (m : Marks) (s : Setting) : List Char :=
  s.key m ++ (s.value.map fun v => m.keyValue ++ v.toList).getD []

theorem toList_text (d : Delimiters) (s : Setting) : (s.text d).toList = s.chars (.of d) := by
  rw [text, chars, key, String.toList_append, String.toList_intercalate]
  cases s.value <;> simp [Marks.of]

end Setting

def written (d : Delimiters) (stem : String) (settings : List Setting) : String :=
  stem ++ d.slot ++ d.pair.intercalate (settings.map (Setting.text d))

namespace Marks

variable (m : Marks)

def Spares (s : List Char) : Prop := ∀ c ∈ s, c ∉ m.slot ++ m.pair ++ m.keyValue ++ m.nested

instance (s : List Char) : Decidable (m.Spares s) :=
  List.decidableBAll (fun c => c ∉ m.slot ++ m.pair ++ m.keyValue ++ m.nested) s

structure IsFull : Prop where
  slot : m.slot ≠ []
  pair : m.pair ≠ []
  keyValue : m.keyValue ≠ []
  nested : m.nested ≠ []

/-- Each mark is known where it is written. -/
structure IsUnambiguous : Prop where
  keyValue_pair : ¬m.keyValue <+: m.pair
  pair_nested : ¬m.pair <:+: m.nested
  keyValue_nested : ¬m.keyValue <:+: m.nested

end Marks

structure Setting.IsPlain (m : Marks) (s : Setting) : Prop where
  ne_empty : ∀ segment ∈ s.path, segment ≠ ""
  path_spared : ∀ segment ∈ s.path, m.Spares segment.toList
  value_spared : ∀ v ∈ s.value, m.Spares v.toList

section Reading

variable {m : Marks} {s rest : List Char} {segments : List (List Char)}

theorem Marks.Spares.unmarked (h : m.Spares s) {marks : List (List Char)} (hne : [] ∉ marks)
    (hmarks : marks ⊆ [m.slot, m.pair, m.keyValue, m.nested]) (rest : List Char) : Unmarked marks s rest := by
  refine .of_notMem hne fun c hc mark hmark hmem => h c hc ?_
  have hall := hmarks hmark
  simp only [List.mem_cons, List.not_mem_nil, or_false] at hall
  rcases hall with rfl | rfl | rfl | rfl <;> simp [hmem]

theorem head?_intercalate (sep : List Char) (hs : s ≠ []) (segments : List (List Char)) (rest : List Char) :
    (sep.intercalate (s :: segments) ++ rest).head? = s.head? := by
  obtain ⟨c, s, rfl⟩ := List.exists_cons_of_ne_nil hs
  cases segments with
  | nil => simp
  | cons t segments => simp [List.intercalate_cons_cons]

theorem unmarked_key (hf : m.IsFull) (hu : m.IsUnambiguous)
    (hs : ∀ s ∈ segments, s ≠ [] ∧ m.Spares s) (rest : List Char) :
    Unmarked [m.pair, m.keyValue] (m.nested.intercalate segments) rest := by
  have hne : [] ∉ [m.pair, m.keyValue] := by simp [hf.pair.symm, hf.keyValue.symm]
  have hsegment : ∀ s ∈ segments, ∀ rest, Unmarked [m.pair, m.keyValue] s rest :=
    fun s hmem => (hs s hmem).2.unmarked hne (by simp)
  induction segments with
  | nil => trivial
  | cons s segments ih =>
      cases segments with
      | nil =>
          rw [List.intercalate_singleton]
          exact hsegment s List.mem_cons_self rest
      | cons t segments =>
          have ht := hs t (by simp)
          -- A mark may begin in the nested mark and reach beyond it, where a segment begins.
          have hhead : ∀ mark ∈ [m.pair, m.keyValue],
              ∀ c ∈ (m.nested.intercalate (t :: segments) ++ rest).head?, c ∉ mark := by
            intro mark hmark c hc hmem
            rw [head?_intercalate m.nested ht.1] at hc
            refine ht.2 c (List.mem_of_mem_head? hc) ?_
            simp only [List.mem_cons, List.not_mem_nil, or_false] at hmark
            rcases hmark with rfl | rfl <;> simp [hmem]
          rw [List.intercalate_cons_cons, List.append_assoc, Unmarked.append_iff, Unmarked.append_iff]
          refine ⟨hsegment s List.mem_cons_self _, Unmarked.pair_iff.2 ⟨?_, ?_⟩, ?_⟩
          · exact .of_not_isInfix hu.pair_nested (hhead _ (by simp))
          · exact .of_not_isInfix hu.keyValue_nested (hhead _ (by simp))
          · exact ih (fun s hmem => hs s (List.mem_cons_of_mem _ hmem))
              fun s hmem => hsegment s (List.mem_cons_of_mem _ hmem)

theorem splitChars_key (hf : m.IsFull) (hne : segments ≠ []) (hs : ∀ s ∈ segments, m.Spares s) :
    splitChars m.nested (m.nested.intercalate segments) = segments := by
  have hsegment : ∀ s ∈ segments, ∀ rest, Unmarked [m.nested] s rest :=
    fun s hmem => (hs s hmem).unmarked (by simp [hf.nested.symm]) (by simp)
  induction segments with
  | nil => exact absurd rfl hne
  | cons s segments ih =>
      cases segments with
      | nil =>
          rw [List.intercalate_singleton]
          exact splitChars_of_not_isInfix hf.nested
            ((hsegment s List.mem_cons_self []).not_isInfix hf.nested)
      | cons t segments =>
          rw [List.intercalate_cons_cons, List.append_assoc,
            splitChars_of_unmarked hf.nested (hsegment s List.mem_cons_self _),
            ih (List.cons_ne_nil t segments) (fun s hmem => hs s (List.mem_cons_of_mem _ hmem))
              fun s hmem => hsegment s (List.mem_cons_of_mem _ hmem)]

end Reading

namespace Setting

variable {m : Marks} {s : Setting}

def entry (m : Marks) (s : Setting) : Entry := (s.key m, s.value.map String.toList)

namespace IsPlain

theorem segments (h : s.IsPlain m) : ∀ segment ∈ s.path.map String.toList, segment ≠ [] ∧ m.Spares segment := by
  intro segment hmem
  obtain ⟨text, htext, rfl⟩ := List.mem_map.1 hmem
  exact ⟨by simpa using h.ne_empty text htext, h.path_spared text htext⟩

theorem ofEntry_entry (h : s.IsPlain m) (hf : m.IsFull) : ofEntry m.nested (s.entry m) = s := by
  have hsplit := splitChars_key hf (by simpa using s.path_ne_nil) fun t ht => (h.segments t ht).2
  obtain ⟨path, value, hne⟩ := s
  simp only [entry, ofEntry, key, hsplit]
  simp [Function.comp_def]

theorem spares_head? (h : s.IsPlain m) (rest : List Char) : ∀ c ∈ (s.chars m ++ rest).head?, m.Spares [c] := by
  have hsegments := h.segments
  rw [chars, key]
  have hpath : s.path.map String.toList ≠ [] := by simpa using s.path_ne_nil
  obtain ⟨segment, segments, hcons⟩ := List.exists_cons_of_ne_nil hpath
  rw [hcons] at hsegments ⊢
  obtain ⟨hne, hspared⟩ := hsegments segment List.mem_cons_self
  intro c hc
  rw [List.append_assoc, head?_intercalate m.nested hne] at hc
  intro d hd
  rw [List.mem_singleton.1 hd]
  exact hspared c (List.mem_of_mem_head? hc)

theorem key_ne_nil (h : s.IsPlain m) : s.key m ≠ [] := by
  have hpath : s.path.map String.toList ≠ [] := by simpa using s.path_ne_nil
  obtain ⟨segment, segments, hcons⟩ := List.exists_cons_of_ne_nil hpath
  have hne := (h.segments segment (by simp [hcons])).1
  rw [key, hcons]
  cases segments with
  | nil => simpa using hne
  | cons t segments => simp [List.intercalate_cons_cons, hne]

theorem takeEntry_chars (h : s.IsPlain m) (hf : m.IsFull) (hu : m.IsUnambiguous) {tail : List Char}
    (htail : tail = [] ∨ ∃ rest, tail = m.pair ++ rest ∧ ∀ c ∈ rest.head?, m.Spares [c]) :
    takeEntry m (s.chars m ++ tail) = some (s.entry m, tail) := by
  have hne : [] ∉ [m.pair, m.keyValue] := by simp [hf.pair.symm, hf.keyValue.symm]
  have hpair : tail = [] ∨ m.pair <+: tail := htail.imp_right fun ⟨rest, hrest, _⟩ => ⟨rest, hrest.symm⟩
  have hkey : ∀ rest, Unmarked [m.pair, m.keyValue] (s.key m) rest := unmarked_key hf hu h.segments
  rw [takeEntry, chars, entry]
  cases hvalue : s.value with
  | none =>
      have hnone : after? m.keyValue tail = none := by
        rw [after?_eq_none_iff]
        rcases htail with rfl | ⟨rest, rfl, hrest⟩
        · simpa using hf.keyValue
        · refine not_isPrefix_append hu.keyValue_pair fun c hc hmem => ?_
          exact hrest c hc c (List.mem_singleton_self c) (by simp [hmem])
      have hbreak := breakAt_of_unmarked hne (hkey tail) (hpair.imp_right fun hp => ⟨_, by simp, hp⟩)
      simp only [Option.map_none, Option.getD_none, List.append_nil]
      simp [hbreak, hnone, h.key_ne_nil]
  | some v =>
      have hbreak := breakAt_of_unmarked hne (hkey (m.keyValue ++ (v.toList ++ tail)))
        (.inr ⟨_, by simp, List.prefix_append ..⟩)
      have hone : [] ∉ [m.pair] := by simp [hf.pair.symm]
      have hbreakValue := breakAt_of_unmarked hone ((h.value_spared v hvalue).unmarked hone (by simp) tail)
        (hpair.imp_right fun hp => ⟨_, by simp, hp⟩)
      simp only [Option.map_some, Option.getD_some, List.append_assoc]
      simp [hbreak, after?_append, hbreakValue, h.key_ne_nil]

end IsPlain

end Setting

section Block

variable {m : Marks} {settings : List Setting}

theorem entries?_chars (hf : m.IsFull) (hu : m.IsUnambiguous) (hne : settings ≠ [])
    (h : ∀ s ∈ settings, s.IsPlain m) :
    entries? m (m.pair.intercalate (settings.map (Setting.chars m))) =
      some (settings.map (Setting.entry m)) := by
  induction settings with
  | nil => exact absurd rfl hne
  | cons s settings ih =>
      have hs := h s List.mem_cons_self
      cases settings with
      | nil =>
          have htake := hs.takeEntry_chars hf hu (.inl rfl)
          rw [List.append_nil] at htake
          simpa using entries?_last hf.pair htake
      | cons t settings =>
          have hhead : ∀ c ∈ (m.pair.intercalate ((t :: settings).map (Setting.chars m))).head?,
              m.Spares [c] := by
            have ht := (h t (by simp)).spares_head?
            cases settings with
            | nil => simpa using ht []
            | cons u settings =>
                rw [List.map_cons, List.map_cons, List.intercalate_cons_cons, List.append_assoc]
                exact ht _
          have htake := hs.takeEntry_chars hf hu (.inr ⟨_, rfl, hhead⟩)
          have hrest := ih (List.cons_ne_nil t settings) fun u hu => h u (List.mem_cons_of_mem s hu)
          rw [List.map_cons] at htake hrest ⊢
          rw [List.map_cons, List.intercalate_cons_cons, List.append_assoc, entries?_more hf.pair htake, hrest]
          rfl

end Block

/-- A name is read from its first slot mark, wherever other marks come again. -/
theorem parse_written_eq {d : Delimiters} (hslot : d.slot.toList ≠ []) {stem : String}
    (hstem : (Marks.of d).Spares stem.toList) (settings : List Setting) :
    parse d (written d stem settings) =
      match entries? (.of d) (d.pair.toList.intercalate (settings.map (Setting.chars (.of d)))) with
      | none => []
      | some entries => ofSettings (entries.map (Setting.ofEntry d.nested.toList)) := by
  have hchars : (written d stem settings).toList = stem.toList ++ (d.slot.toList ++
      d.pair.toList.intercalate (settings.map (Setting.chars (.of d)))) := by
    simp [written, String.toList_intercalate, Function.comp_def, Setting.toList_text]
  have hunmarked : ∀ rest, Unmarked [d.slot.toList] stem.toList rest :=
    hstem.unmarked (by simp [hslot.symm]) (by simp [Marks.of])
  exact parse_of_cut? (hchars ▸ cut?_of_unmarked (hunmarked _))

theorem parse_written {d : Delimiters} (hf : (Marks.of d).IsFull) (hu : (Marks.of d).IsUnambiguous)
    {stem : String} (hstem : (Marks.of d).Spares stem.toList) {settings : List Setting} (hne : settings ≠ [])
    (h : ∀ s ∈ settings, s.IsPlain (.of d)) : parse d (written d stem settings) = ofSettings settings := by
  have hentries : entries? (.of d) (d.pair.toList.intercalate (settings.map (Setting.chars (.of d)))) =
      some (settings.map (Setting.entry (.of d))) := entries?_chars hf hu hne h
  have hback : (settings.map (Setting.entry (.of d))).map (Setting.ofEntry d.nested.toList) = settings := by
    rw [List.map_map]
    exact (List.map_congr_left fun s hs => (h s hs).ofEntry_entry hf).trans (List.map_id settings)
  rw [parse_written_eq hf.slot hstem, hentries]
  dsimp only
  rw [hback]

theorem key_of_takeEntry {m : Marks} {s rest : List Char} {e : Entry} (h : takeEntry m s = some (e, rest)) :
    e.1 = (breakAt [m.pair, m.keyValue] s).1 := by
  rw [takeEntry] at h
  dsimp only at h
  split at h
  · cases h
  · split at h <;> cases h <;> rfl

theorem not_isInfix_key {m : Marks} (hf : m.IsFull) {s : List Char} {entries : List Entry}
    (h : entries? m s = some entries) : ∀ e ∈ entries, ¬m.pair <:+: e.1 ∧ ¬m.keyValue <:+: e.1 := by
  have hfirst : ∀ {s rest e}, takeEntry m s = some (e, rest) → ¬m.pair <:+: e.1 ∧ ¬m.keyValue <:+: e.1 := by
    intro s rest e htake
    have hne : [] ∉ [m.pair, m.keyValue] := by simp [hf.pair.symm, hf.keyValue.symm]
    have hunmarked := Unmarked.pair_iff.1 (unmarked_breakAt hne s)
    rw [key_of_takeEntry htake]
    exact ⟨hunmarked.1.not_isInfix hf.pair, hunmarked.2.not_isInfix hf.keyValue⟩
  fun_induction entries? m s generalizing entries with
  | case1 => cases h
  | case2 s e rest htake =>
      cases h
      simpa using hfirst htake
  | case3 => cases h
  | case4 => cases h
  | case5 s e rest htake _ _ next hafter _ ih =>
      obtain ⟨more, hmore, rfl⟩ := Option.map_eq_some_iff.1 h
      exact List.forall_mem_cons.2 ⟨hfirst htake, ih hmore⟩

theorem leaf_of_mem_ofSettings {settings : List Setting} (h : ∀ s ∈ settings, ∃ key, s.path = [key]) :
    ∀ e ∈ ofSettings settings, ∃ v, e.2 = Setting.leaf v := by
  induction settings using List.reverseRecOn with
  | nil => simp [ofSettings]
  | append_singleton settings s ih =>
      obtain ⟨key, hkey⟩ := h s (by simp)
      intro e he
      rw [ofSettings_append, Setting.apply, hkey] at he
      rcases Table.mem_put he with rfl | he
      · exact ⟨s.value, rfl⟩
      · exact ih (fun t ht => h t (by simp [ht])) e he

/-- With the end of a key in the mark between segments, there is no path of two segments. -/
theorem leaf_of_mem_parse {d : Delimiters} (hf : (Marks.of d).IsFull)
    (h : d.pair.toList <:+: d.nested.toList ∨ d.keyValue.toList <:+: d.nested.toList) (name : String) :
    ∀ e ∈ parse d name, ∃ v, e.2 = Setting.leaf v := by
  cases hcut : cut? d.slot.toList name.toList with
  | none => simp [parse_of_cut?_eq_none hcut]
  | some cut =>
      rw [parse_of_cut? hcut]
      split
      · simp
      · next entries hentries =>
        refine leaf_of_mem_ofSettings fun s hs => ?_
        obtain ⟨e, he, rfl⟩ := List.mem_map.1 hs
        obtain ⟨hpair, hkeyValue⟩ := not_isInfix_key hf hentries e he
        have hnested : ¬d.nested.toList <:+: e.1 :=
          fun hkey => h.elim (fun hm => hpair (hm.trans hkey)) fun hm => hkeyValue (hm.trans hkey)
        have hsplit : splitChars d.nested.toList e.1 = [e.1] := splitChars_of_not_isInfix hf.nested hnested
        exact ⟨_, congrArg (List.map String.ofList) hsplit⟩

/-- With the mark before values at the beginning of pair marks, a flag takes what follows it as its value. -/
theorem entries?_flags {m : Marks} (hf : m.IsFull) (h : m.keyValue <+: m.pair) {x : Char} (hx : m.Spares [x]) :
    ∃ value, entries? m (m.pair.intercalate [[x], [x, x]]) = some [([x], some value)] := by
  obtain ⟨more, hmore⟩ := h
  have hpair : [] ∉ [m.pair] := by simp [hf.pair.symm]
  have hne : [] ∉ [m.pair, m.keyValue] := by simp [hf.pair.symm, hf.keyValue.symm]
  have hxx : m.Spares [x, x] := by
    intro c hc
    exact hx c (by simpa using hc)
  have hshort : ¬m.pair <:+: more := by
    intro hinfix
    have hlength := hinfix.length_le
    rw [← hmore, List.length_append] at hlength
    have hpos := List.length_pos_iff.2 hf.keyValue
    omega
  have hvalue : Unmarked [m.pair] (more ++ [x, x]) [] := by
    rw [Unmarked.append_iff]
    refine ⟨.of_not_isInfix hshort fun c hc hmem => ?_, hxx.unmarked hpair (by simp) []⟩
    cases hc
    exact hx x (List.mem_singleton_self x) (by simp [hmem])
  have hbreak := breakAt_of_unmarked hne (hx.unmarked hne (by simp) (m.pair ++ [x, x]))
    (.inr ⟨_, by simp, List.prefix_append ..⟩)
  have hbreakValue := breakAt_of_unmarked hpair hvalue (.inl rfl)
  have hafter : after? m.keyValue (m.pair ++ [x, x]) = some (more ++ [x, x]) := by
    rw [← hmore, List.append_assoc]
    exact after?_append ..
  refine ⟨more ++ [x, x], entries?_last hf.pair ?_⟩
  rw [List.append_nil] at hbreakValue
  have hblock : m.pair.intercalate [[x], [x, x]] = [x] ++ (m.pair ++ [x, x]) := by
    simp [List.intercalate_cons_cons]
  simp only [hblock, takeEntry, hbreak, hafter, hbreakValue]
  rfl

def Setting.inTable (key : String) : Setting := ⟨[key, key], none, List.cons_ne_nil _ _⟩

def Setting.flag (key : String) : Setting := ⟨[key], none, List.cons_ne_nil _ _⟩

theorem not_reads_inTable {d : Delimiters} (hf : (Marks.of d).IsFull)
    (h : d.pair.toList <:+: d.nested.toList ∨ d.keyValue.toList <:+: d.nested.toList) (key name : String) :
    parse d name ≠ ofSettings [.inTable key] := by
  intro heq
  have hmem : (key, ParamValue.table [(key, .flag)]) ∈ parse d name := by
    rw [heq]
    exact List.mem_singleton_self _
  obtain ⟨v, hv⟩ := leaf_of_mem_parse hf h name _ hmem
  exact Setting.leaf_ne_table v _ hv.symm

theorem keys_flags {key other : String} (h : key ≠ other) :
    Table.keys (ofSettings [.flag key, .flag other]) = [key, other] := by
  have hother : ¬key = other := h
  simp [ofSettings, Setting.apply, Setting.flag, insertPath, Table.put, Table.keys, hother]

theorem ofList_ne_ofList (x : Char) : String.ofList [x] ≠ String.ofList [x, x] := by
  intro h
  have hchars := congrArg String.toList h
  simp at hchars

theorem not_reads_flags {d : Delimiters} (hf : (Marks.of d).IsFull) (h : d.keyValue.toList <+: d.pair.toList)
    {x : Char} (hx : (Marks.of d).Spares [x]) {stem : String} (hstem : (Marks.of d).Spares stem.toList) :
    parse d (written d stem [.flag (.ofList [x]), .flag (.ofList [x, x])]) ≠
      ofSettings [.flag (.ofList [x]), .flag (.ofList [x, x])] := by
  obtain ⟨value, hentries⟩ := entries?_flags hf h hx
  have hblock : [Setting.flag (.ofList [x]), .flag (.ofList [x, x])].map (Setting.chars (.of d)) =
      [[x], [x, x]] := by
    simp [Setting.flag, Setting.chars, Setting.key]
  have hread : parse d (written d stem [.flag (.ofList [x]), .flag (.ofList [x, x])]) =
      ofSettings [.ofEntry d.nested.toList ([x], some value)] := by
    have hentries' : entries? (.of d) (d.pair.toList.intercalate [[x], [x, x]]) = some [([x], some value)] :=
      hentries
    rw [parse_written_eq hf.slot hstem, hblock, hentries']
    rfl
  intro heq
  -- One key is read and two are written.
  have hkeys := congrArg List.length (congrArg Table.keys (hread.symm.trans heq))
  rw [keys_flags (ofList_ne_ofList x), keys_ofSettings] at hkeys
  cases hkeys

theorem ne_empty_of_checkDelimiters {before : List String} {named : List (String × String)}
    (h : Options.checkDelimiters before named = .ok ()) : ∀ e ∈ named, e.2 ≠ "" := by
  induction named generalizing before with
  | nil => simp
  | cons e named ih =>
      obtain ⟨option, value⟩ := e
      rw [Options.checkDelimiters] at h
      split at h
      · cases h
      · next hvalue =>
        split at h
        · cases h
        · exact List.forall_mem_cons.2 ⟨hvalue, ih h⟩

theorem isFull_of_validate {o : Options} (h : o.validate = .ok ()) : (Marks.of o.delimiters).IsFull := by
  obtain ⟨hslot, hpair, hkeyValue, hnested⟩ : o.delimiters.slot ≠ "" ∧ o.delimiters.pair ≠ "" ∧
      o.delimiters.keyValue ≠ "" ∧ o.delimiters.nested ≠ "" := by
    simpa [Options.Delimiters.named] using ne_empty_of_checkDelimiters (Options.validate_eq_ok_iff.1 h).2.2.1
  exact ⟨by simpa [Marks.of] using hslot, by simpa [Marks.of] using hpair,
    by simpa [Marks.of] using hkeyValue, by simpa [Marks.of] using hnested⟩

theorem Setting.isPlain_of_path {m : Marks} {x : Char} (hx : m.Spares [x]) {path : List String}
    (hpath : ∀ key ∈ path, key = .ofList [x] ∨ key = .ofList [x, x]) (hne : path ≠ []) :
    (⟨path, none, hne⟩ : Setting).IsPlain m := by
  refine ⟨?_, ?_, by simp⟩
  · intro key hkey
    rcases hpath key hkey with rfl | rfl <;> simp
  · intro key hkey c hc
    rcases hpath key hkey with rfl | rfl <;> exact hx c (by simpa using hc)

/-- Whatever settings are written with valid delimiters are read back, just when these are unambiguous. -/
theorem reads_written_iff {o : Options} (h : o.validate = .ok ()) {x : Char}
    (hx : (Marks.of o.delimiters).Spares [x]) :
    (∀ settings : List Setting, settings ≠ [] → (settings.map Setting.path).Nodup →
      (∀ s ∈ settings, s.IsPlain (.of o.delimiters)) →
        parse o.delimiters (written o.delimiters (.singleton x) settings) = ofSettings settings) ↔
      (Marks.of o.delimiters).IsUnambiguous := by
  have hf := isFull_of_validate h
  have hstem : (Marks.of o.delimiters).Spares (String.singleton x).toList := by simpa using hx
  constructor
  · intro hreads
    have htable := hreads [.inTable (.ofList [x])] (List.cons_ne_nil _ _) (List.nodup_singleton _)
      (List.forall_mem_singleton.2 (Setting.isPlain_of_path hx (by simp) _))
    have hflags := hreads [.flag (.ofList [x]), .flag (.ofList [x, x])] (List.cons_ne_nil _ _)
      (by simpa [Setting.flag] using ofList_ne_ofList x) (by
        simp only [List.forall_mem_cons, List.not_mem_nil, false_imp_iff, forall_true_iff, and_true]
        exact ⟨Setting.isPlain_of_path hx (by simp) _, Setting.isPlain_of_path hx (by simp) _⟩)
    exact ⟨fun hbegins => not_reads_flags hf hbegins hx hstem hflags,
      fun hpair => not_reads_inTable hf (.inl hpair) _ _ htable,
      fun hkeyValue => not_reads_inTable hf (.inr hkeyValue) _ _ htable⟩
  · intro hu settings hne _ hplain
    exact parse_written hf hu hstem hne hplain

/-- Delimiters that share characters and are still not taken for one another. -/
def sharing : Options where
  delimiters := ⟨"::", ":=", "=", ":"⟩

theorem reads_written_sharing :
    sharing.validate = .ok () ∧
      parse sharing.delimiters (written sharing.delimiters "X"
          [⟨["style", "gap"], some "", List.cons_ne_nil _ _⟩, .flag "wide"]) =
        ofSettings [⟨["style", "gap"], some "", List.cons_ne_nil _ _⟩, .flag "wide"] := by
  have hspared : (Marks.of sharing.delimiters).Spares ['X'] := by decide
  have hunambiguous : (Marks.of sharing.delimiters).IsUnambiguous := ⟨by decide, by decide, by decide⟩
  refine ⟨rfl, (reads_written_iff (o := sharing) rfl hspared).2 hunambiguous _ (List.cons_ne_nil _ _)
    (by decide) ?_⟩
  intro s hs
  rcases List.mem_pair.1 hs with rfl | rfl
  · exact ⟨by decide, by decide, by decide⟩
  · exact ⟨by decide, by decide, by decide⟩

def doubled : Options where
  delimiters := { pair := "&&", keyValue := "&" }

/-- Of two flags the second becomes the value of the first. -/
theorem not_forall_reads_written :
    ¬∀ o : Options, o.validate = .ok () → ∀ x : Char, (Marks.of o.delimiters).Spares [x] →
      ∀ settings : List Setting, settings ≠ [] → (settings.map Setting.path).Nodup →
        (∀ s ∈ settings, s.IsPlain (.of o.delimiters)) →
          parse o.delimiters (written o.delimiters (.singleton x) settings) = ofSettings settings := by
  intro h
  have hspared : (Marks.of doubled.delimiters).Spares ['X'] := by decide
  have hread := h doubled rfl 'X' hspared [.flag "X", .flag "XX"] (List.cons_ne_nil _ _) (by decide) (by
    intro s hs
    rcases List.mem_pair.1 hs with rfl | rfl
    · exact ⟨by decide, by decide, by decide⟩
    · exact ⟨by decide, by decide, by decide⟩)
  have hstem : (Marks.of doubled.delimiters).Spares (String.singleton 'X').toList := hspared
  exact not_reads_flags (isFull_of_validate (o := doubled) rfl) (by decide) hspared hstem hread

end DesignCompiler.Params

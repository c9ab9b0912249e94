import Mathlib.Data.List.Induction
import DesignCompiler.Params

namespace DesignCompiler

def ParamValue.at? : (path : List String) → ParamValue → Option ParamValue
  | [], v => some v
  | key :: path, .table entries => (entries.lookup key).bind (at? path)
  | _ :: _, _ => none

namespace Params

/-- The value that an insertion puts under the first key of a path, by what is left of the path. -/
def inserted (value : ParamValue) (rest : List String) (params : Params) : ParamValue :=
  match rest with
  | [] => value
  | _ :: _ => .table (insertPath value rest params)

theorem insertPath_cons (value : ParamValue) (key : String) (path : List String) (params : Params) :
    insertPath value (key :: path) params =
      Table.put key (inserted value path (tableAt key params)) params := by
  cases path <;> rfl

theorem at?_cons_table (key : String) (path : List String) (params : Params) :
    (ParamValue.table params).at? (key :: path) = (params.lookup key).bind fun v => v.at? path := rfl

theorem at?_append (path rest : List String) (v : ParamValue) :
    v.at? (path ++ rest) = (v.at? path).bind fun w => w.at? rest := by
  induction path generalizing v with
  | nil => rfl
  | cons key path ih =>
      cases v with
      | flag | text => rfl
      | table entries =>
          rw [List.cons_append, at?_cons_table, at?_cons_table]
          cases entries.lookup key with
          | none => rfl
          | some w => exact ih w

theorem at?_tableAt (key : String) {path : List String} (hne : path ≠ []) (params : Params) :
    (ParamValue.table (tableAt key params)).at? path = (ParamValue.table params).at? (key :: path) := by
  obtain ⟨next, path, rfl⟩ := List.exists_cons_of_ne_nil hne
  rw [at?_cons_table key, tableAt]
  rcases params.lookup key with _ | ⟨_ | _ | _⟩ <;> rfl

section Inserted

variable (value : ParamValue) (params : Params)

theorem at?_inserted_cons (key : String) (path rest : List String) :
    (inserted value (key :: path) params).at? (key :: rest) =
      (inserted value path (tableAt key params)).at? rest := by
  change (ParamValue.table (insertPath value (key :: path) params)).at? (key :: rest) = _
  rw [insertPath_cons, at?_cons_table, Table.lookup_put_self]
  rfl

theorem at?_inserted_of_ne {key other : String} (h : other ≠ key) (path rest : List String) :
    (inserted value (key :: path) params).at? (other :: rest) =
      (ParamValue.table params).at? (other :: rest) := by
  change (ParamValue.table (insertPath value (key :: path) params)).at? (other :: rest) = _
  rw [insertPath_cons, at?_cons_table, Table.lookup_put_of_ne h]
  rfl

theorem at?_inserted_self (path : List String) :
    (inserted value path params).at? path = some value := by
  induction path generalizing params with
  | nil => rfl
  | cons key path ih => rw [at?_inserted_cons, ih]

theorem exists_at?_inserted_of_isPrefix {rest path : List String} (h : rest <+: path) (hne : rest ≠ path) :
    ∃ t, (inserted value path params).at? rest = some (.table t) := by
  induction path generalizing rest params with
  | nil => exact absurd (List.prefix_nil.1 h) hne
  | cons key path ih =>
      cases rest with
      | nil => exact ⟨_, rfl⟩
      | cons other rest =>
          obtain ⟨rfl, hrest⟩ := List.cons_prefix_cons.1 h
          rw [at?_inserted_cons]
          exact ih _ hrest fun heq => hne (by rw [heq])

theorem at?_inserted_of_not_isPrefix {rest path : List String} (h : ¬path <+: rest) (h' : ¬rest <+: path) :
    (inserted value path params).at? rest = (ParamValue.table params).at? rest := by
  induction path generalizing rest params with
  | nil => exact absurd (List.nil_prefix) h
  | cons key path ih =>
      cases rest with
      | nil => exact absurd (List.nil_prefix) h'
      | cons other rest =>
          by_cases hkey : other = key
          · subst hkey
            simp only [List.cons_prefix_cons, true_and] at h h'
            -- The paths part below the common key, so neither of them ends there.
            have hrest : rest ≠ [] := fun heq => h' (heq ▸ List.nil_prefix)
            rw [at?_inserted_cons, ih _ h h', at?_tableAt other hrest]
          · exact at?_inserted_of_ne value params hkey path rest

end Inserted

/-- A value at the end of a path; without a value the path is a flag. -/
structure Setting where
  path : List String
  value : Option String
  path_ne_nil : path ≠ []

namespace Setting

def leaf : Option String → ParamValue
  | some v => .text v
  | none => .flag

variable (s : Setting)

def head : String := s.path.head s.path_ne_nil

def apply (params : Params) : Params := insertPath (leaf s.value) s.path params

def Touches (path : List String) : Prop := s.path <+: path ∨ path <+: s.path

instance (path : List String) : Decidable (s.Touches path) := inferInstanceAs (Decidable (_ ∨ _))

theorem leaf_injective : Function.Injective leaf := by
  intro v w h
  cases v <;> cases w <;> cases h <;> rfl

theorem leaf_ne_table (v : Option String) (t : Params) : leaf v ≠ .table t := by
  cases v <;> exact ParamValue.noConfusion

theorem at?_leaf (v : Option String) {path : List String} (h : path ≠ []) : (leaf v).at? path = none := by
  obtain ⟨key, path, rfl⟩ := List.exists_cons_of_ne_nil h
  cases v <;> rfl

theorem table_apply (params : Params) :
    ParamValue.table (s.apply params) = inserted (leaf s.value) s.path params := by
  obtain ⟨path, value, hne⟩ := s
  obtain ⟨key, path, rfl⟩ := List.exists_cons_of_ne_nil hne
  rfl

theorem keys_apply (params : Params) :
    (s.apply params).keys =
      if s.head ∈ Table.keys params then Table.keys params else Table.keys params ++ [s.head] := by
  obtain ⟨path, value, hne⟩ := s
  obtain ⟨key, path, rfl⟩ := List.exists_cons_of_ne_nil hne
  rw [apply, insertPath_cons, Table.keys_put]
  rfl

/-- What a path leads to, by the last setting that touches it. -/
inductive Decides (path : List String) : Option Setting → Option ParamValue → Prop
  | itself {s : Setting} (h : s.path = path) : Decides path (some s) (some (leaf s.value))
  | below {s : Setting} (h : path <+: s.path) (hne : path ≠ s.path) (t : Params) :
      Decides path (some s) (some (.table t))
  | above {s : Setting} (h : s.path <+: path) (hne : s.path ≠ path) : Decides path (some s) none
  | untouched (h : path ≠ []) : Decides path none none
  | empty (h : path = []) : Decides path none (some (.table []))

namespace Decides

variable {path : List String} {last : Option Setting} {found : Option ParamValue}

theorem eq_leaf_iff (h : Decides path last found) (v : Option String) :
    found = some (leaf v) ↔ ∃ s, last = some s ∧ s.path = path ∧ s.value = v := by
  cases h with
  | itself hpath => simp [hpath, leaf_injective.eq_iff]
  | below hbegins hne t => simp [(leaf_ne_table v t).symm, hne.symm]
  | above hbegins hne => simp [hne]
  | untouched => simp
  | empty => simp [(leaf_ne_table v []).symm]

theorem exists_eq_table_iff (h : Decides path last found) :
    (∃ t, found = some (.table t)) ↔
      (∃ s, last = some s ∧ path <+: s.path ∧ path ≠ s.path) ∨ last = none ∧ path = [] := by
  cases h with
  | itself hpath => simp [hpath, leaf_ne_table]
  | below hbegins hne t => simp [hbegins, hne]
  | above hbegins hne =>
      have hback : ¬path <+: _ := fun h => hne (hbegins.eq_of_length_le h.length_le)
      simp [hback]
  | untouched hne => simp [hne]
  | empty hpath => simp [hpath]

end Decides

theorem decides_apply (params : Params) {path : List String} (h : s.Touches path) :
    Decides path (some s) ((ParamValue.table (s.apply params)).at? path) := by
  rw [table_apply]
  by_cases heq : s.path = path
  · subst heq
    rw [at?_inserted_self]
    exact .itself rfl
  · rcases h with h | h
    · obtain ⟨rest, rfl⟩ := h
      have hrest : rest ≠ [] := by simpa using heq
      rw [at?_append, at?_inserted_self, Option.bind_some, at?_leaf _ hrest]
      exact .above (List.prefix_append ..) heq
    · obtain ⟨t, ht⟩ := exists_at?_inserted_of_isPrefix (leaf s.value) params h (Ne.symm heq)
      rw [ht]
      exact .below h (Ne.symm heq) t

theorem at?_apply_of_not_touches (params : Params) {path : List String} (h : ¬s.Touches path) :
    (ParamValue.table (s.apply params)).at? path = (ParamValue.table params).at? path := by
  rw [table_apply]
  exact at?_inserted_of_not_isPrefix _ params (fun hp => h (.inl hp)) fun hp => h (.inr hp)

end Setting

def ofSettings (settings : List Setting) : Params := settings.foldl (fun params s => s.apply params) []

def lastTouching? (settings : List Setting) (path : List String) : Option Setting :=
  (settings.filter fun s => s.Touches path).getLast?

theorem ofSettings_append (settings : List Setting) (s : Setting) :
    ofSettings (settings ++ [s]) = s.apply (ofSettings settings) := List.foldl_append

theorem lastTouching?_append (settings : List Setting) (s : Setting) (path : List String) :
    lastTouching? (settings ++ [s]) path =
      if s.Touches path then some s else lastTouching? settings path := by
  rw [lastTouching?, List.filter_append]
  by_cases h : s.Touches path
  · simp [h]
  · simp [h, lastTouching?]

theorem lastTouching?_nil (settings : List Setting) : lastTouching? settings [] = settings.getLast? := by
  rw [lastTouching?, List.filter_eq_self.2]
  intro s _
  exact decide_eq_true (.inr List.nil_prefix)

theorem decides_lastTouching? (settings : List Setting) (path : List String) :
    Setting.Decides path (lastTouching? settings path) ((ParamValue.table (ofSettings settings)).at? path) := by
  induction settings using List.reverseRecOn with
  | nil =>
      cases path with
      | nil => exact .empty rfl
      | cons key path => exact .untouched (List.cons_ne_nil key path)
  | append_singleton settings s ih =>
      rw [ofSettings_append, lastTouching?_append]
      split
      · next h => exact s.decides_apply _ h
      · next h =>
        rw [s.at?_apply_of_not_touches _ h]
        exact ih

theorem keys_ofSettings (settings : List Setting) :
    (ofSettings settings).keys = (settings.map Setting.head).eraseDups := by
  induction settings using List.reverseRecOn with
  | nil => rfl
  | append_singleton settings s ih =>
      rw [ofSettings_append, s.keys_apply, ih, List.map_append, List.map_singleton, List.eraseDups_append]
      by_cases h : s.head ∈ settings.map Setting.head
      · have hold : List.removeAll [s.head] (settings.map Setting.head) = [] := by
          rw [List.removeAll, List.filter_eq_nil_iff]
          simpa using h
        simp [h, hold]
      · have hnew : List.removeAll [s.head] (settings.map Setting.head) = [s.head] := by
          rw [List.removeAll, List.filter_eq_self]
          simpa using h
        rw [hnew, if_neg (by simpa using h)]
        rfl

/-- Of the settings at, above and below a path the last one decides what the path leads to, its own value
if it is at the path and a table if it is below. Keys stand in the order in which they first come. -/
theorem last_setting_decides (settings : List Setting) (path : List String) :
    (∀ v, (ParamValue.table (ofSettings settings)).at? path = some (Setting.leaf v) ↔
      ∃ s, lastTouching? settings path = some s ∧ s.path = path ∧ s.value = v) ∧
    ((∃ t, (ParamValue.table (ofSettings settings)).at? path = some (.table t)) ↔
      (∃ s, lastTouching? settings path = some s ∧ path <+: s.path ∧ path ≠ s.path) ∨
        path = [] ∧ settings = []) ∧
    (ofSettings settings).keys = (settings.map Setting.head).eraseDups := by
  have hdecides := decides_lastTouching? settings path
  have hempty : lastTouching? settings path = none ∧ path = [] ↔ path = [] ∧ settings = [] := by
    rw [and_comm]
    refine and_congr_right ?_
    rintro rfl
    rw [lastTouching?_nil, List.getLast?_eq_none_iff]
  refine ⟨hdecides.eq_leaf_iff, ?_, keys_ofSettings settings⟩
  rw [hdecides.exists_eq_table_iff, hempty]

end Params

end DesignCompiler

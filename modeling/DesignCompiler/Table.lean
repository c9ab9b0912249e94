namespace DesignCompiler

abbrev Table (α : Type) := List (String × α)

namespace Table

variable {α : Type}

/-- Replaces the value under a name that is there, and adds a new name at the end. -/
def put (name : String) (value : α) : Table α → Table α
  | [] => [(name, value)]
  | (k, v) :: rest => if k = name then (k, value) :: rest else (k, v) :: put name value rest

def putAll (entries : List (String × α)) (t : Table α) : Table α :=
  entries.foldl (fun t (name, value) => put name value t) t

def ofList (entries : List (String × α)) : Table α := putAll entries []

def erase (name : String) (t : Table α) : Table α := t.filter fun (k, _) => k ≠ name

def contains (name : String) (t : Table α) : Bool := (t.lookup name).isSome

def keys (t : Table α) : List String := t.map Prod.fst

def values (t : Table α) : List α := t.map Prod.snd

theorem lookup_put_self (name : String) (value : α) (t : Table α) :
    (put name value t).lookup name = some value := by
  induction t with
  | nil => simp [put]
  | cons e rest ih =>
    obtain ⟨k, v⟩ := e
    by_cases h : k = name
    · simp [put, h]
    · have : (name == k) = false := by simp [Ne.symm h]
      simp [put, h, List.lookup_cons, this, ih]

theorem lookup_put_of_ne {name other : String} (h : other ≠ name) (value : α) (t : Table α) :
    (put name value t).lookup other = t.lookup other := by
  have hb : (other == name) = false := by simp [h]
  induction t with
  | nil => simp [put, List.lookup_cons, hb]
  | cons e rest ih =>
    obtain ⟨k, v⟩ := e
    by_cases hk : k = name
    · subst hk
      simp [put, List.lookup_cons, hb]
    · simp only [put, hk, if_false, List.lookup_cons, ih]

theorem keys_put (name : String) (value : α) (t : Table α) :
    (put name value t).keys = if name ∈ t.keys then t.keys else t.keys ++ [name] := by
  induction t with
  | nil => simp [put, keys]
  | cons e rest ih =>
    obtain ⟨k, v⟩ := e
    by_cases h : k = name
    · simp [put, h, keys]
    · have hn : name ≠ k := Ne.symm h
      simp only [keys] at ih ⊢
      by_cases hm : name ∈ List.map Prod.fst rest <;>
        simp [put, h, hn, ih, hm]

theorem mem_put {name : String} {value : α} {t : Table α} {e : String × α} (h : e ∈ put name value t) :
    e = (name, value) ∨ e ∈ t := by
  induction t with
  | nil => exact .inl (List.mem_singleton.1 h)
  | cons entry rest ih =>
    obtain ⟨k, v⟩ := entry
    rw [put] at h
    split at h
    · next hk =>
      rcases List.mem_cons.1 h with rfl | h
      · exact .inl (by rw [hk])
      · exact .inr (List.mem_cons_of_mem _ h)
    · rcases List.mem_cons.1 h with rfl | h
      · exact .inr List.mem_cons_self
      · exact (ih h).imp_right (List.mem_cons_of_mem _)

theorem put_of_notMem {name : String} {t : Table α} (h : name ∉ t.keys) (value : α) :
    put name value t = t ++ [(name, value)] := by
  induction t with
  | nil => rfl
  | cons e rest ih =>
    obtain ⟨k, v⟩ := e
    simp only [keys, List.map_cons, List.mem_cons, not_or] at h
    simp only [put, Ne.symm h.1, if_false, List.cons_append, ih h.2]

theorem lookup_eq_none {name : String} {t : Table α} : t.lookup name = none ↔ name ∉ t.keys := by
  simp only [List.lookup_eq_none_iff, keys, List.mem_map, bne_iff_ne]
  grind

theorem mem_of_lookup {name : String} {value : α} {t : Table α} (h : t.lookup name = some value) :
    (name, value) ∈ t := by
  obtain ⟨l₁, l₂, ht, -⟩ := List.lookup_eq_some_iff.1 h
  rw [ht]
  simp

theorem lookup_of_isPrefix {name : String} {value : α} {s t : Table α} (h : s <+: t)
    (hs : s.lookup name = some value) : t.lookup name = some value := by
  obtain ⟨u, rfl⟩ := h
  rw [List.lookup_append, hs]
  rfl

end Table

end DesignCompiler

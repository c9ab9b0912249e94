import Mathlib.Data.List.Induction
import Mathlib.Data.List.Nodup
import Mathlib.Tactic.Tauto
import DesignCompiler.Table

namespace DesignCompiler.Table

variable {α β : Type} {entries t : Table α} {name : String}

theorem lookup_putAll (entries t : Table α) (name : String) :
    (putAll entries t).lookup name = (entries.reverse.lookup name).or (t.lookup name) := by
  induction entries generalizing t with
  | nil => rfl
  | cons e entries ih =>
      obtain ⟨k, v⟩ := e
      have hput : putAll ((k, v) :: entries) t = putAll entries (put k v t) := rfl
      rw [hput, ih, List.reverse_cons, List.lookup_append, Option.or_assoc]
      by_cases hk : name = k
      · rw [hk, lookup_put_self, List.lookup_cons_self, Option.some_or]
      · have hb : (name == k) = false := by simp [hk]
        rw [lookup_put_of_ne hk, List.lookup_cons, hb, List.lookup_nil, Option.none_or]

theorem lookup_reverse (t : Table α) (name : String) :
    t.reverse.lookup name = (t.filter fun e => e.1 = name).getLast?.map Prod.snd := by
  induction t using List.reverseRecOn with
  | nil => rfl
  | append_singleton t e ih =>
      rw [List.reverse_append, List.reverse_singleton, List.singleton_append, List.lookup_cons, List.filter_append,
        List.getLast?_append, ih]
      by_cases he : e.1 = name
      · simp [he]
      · have hb : (name == e.1) = false := by simp [Ne.symm he]
        simp [he, hb]

theorem lookup_map_entries (g : String → α → β) (t : Table α) (name : String) :
    (t.map fun e => (e.1, g e.1 e.2)).lookup name = (t.lookup name).map (g name) := by
  induction t with
  | nil => rfl
  | cons e t ih =>
      rw [List.map_cons, List.lookup_cons, List.lookup_cons, ih]
      by_cases hname : name = e.1
      · rw [hname, beq_self_eq_true, Option.map_some]
      · rw [beq_false_of_ne hname]

theorem lookup_map (g : α → β) (t : Table α) (name : String) :
    (t.map fun e => (e.1, g e.2)).lookup name = (t.lookup name).map g :=
  lookup_map_entries (fun _ => g) t name

theorem mem_keys_putAll : name ∈ (putAll entries t).keys ↔ name ∈ entries.keys ∨ name ∈ t.keys := by
  induction entries generalizing t with
  | nil => simp [putAll, keys]
  | cons e entries ih =>
      obtain ⟨k, v⟩ := e
      have hput : putAll ((k, v) :: entries) t = putAll entries (put k v t) := rfl
      have hkeys : keys ((k, v) :: entries) = k :: keys entries := rfl
      rw [hput, ih, keys_put, hkeys, List.mem_cons]
      split
      · next h => grind
      · rw [List.mem_append, List.mem_singleton]
        tauto

theorem mem_of_mem_putAll {e : String × α} (h : e ∈ putAll entries t) : e ∈ entries ∨ e ∈ t := by
  induction entries generalizing t with
  | nil => exact .inr h
  | cons entry entries ih =>
      rcases ih h with h | h
      · exact .inl (List.mem_cons_of_mem _ h)
      · rcases mem_put h with rfl | h
        · exact .inl List.mem_cons_self
        · exact .inr h

theorem mem_of_mem_ofList {e : String × α} (h : e ∈ ofList entries) : e ∈ entries :=
  (mem_of_mem_putAll h).resolve_right (by simp)

theorem put_put (name : String) (value value' : α) (t : Table α) :
    put name value (put name value' t) = put name value t := by
  induction t with
  | nil => simp [put]
  | cons e t ih =>
      by_cases h : e.1 = name
      · simp [put, h]
      · simp [put, h, ih]

theorem nodup_keys_put (h : t.keys.Nodup) (name : String) (value : α) : (put name value t).keys.Nodup := by
  rw [keys_put]
  by_cases hmem : name ∈ t.keys
  · rwa [if_pos hmem]
  · rw [if_neg hmem, ← List.concat_eq_append]
    exact h.concat hmem

theorem nodup_keys_putAll (h : t.keys.Nodup) (entries : Table α) : (putAll entries t).keys.Nodup := by
  induction entries generalizing t with
  | nil => exact h
  | cons e entries ih => exact ih (nodup_keys_put h e.1 e.2)

theorem nodup_keys_ofList (entries : Table α) : (ofList entries).keys.Nodup :=
  nodup_keys_putAll (t := []) List.nodup_nil entries

theorem keys_putAll_congr {entries entries' t t' : Table α} (h : entries.keys = entries'.keys)
    (ht : t.keys = t'.keys) : (putAll entries t).keys = (putAll entries' t').keys := by
  induction entries generalizing entries' t t' with
  | nil =>
      obtain rfl : entries' = [] := List.map_eq_nil_iff.1 h.symm
      exact ht
  | cons e entries ih =>
      cases entries' with
      | nil => cases h
      | cons e' entries' =>
          obtain ⟨hkey, hkeys⟩ := List.cons.inj h
          have hput : (put e.1 e.2 t).keys = (put e'.1 e'.2 t').keys := by rw [keys_put, keys_put, ht, hkey]
          change (putAll entries (put e.1 e.2 t)).keys = (putAll entries' (put e'.1 e'.2 t')).keys
          exact ih hkeys hput

theorem putAll_of_nodup {rows t : Table α} (h : (t.keys ++ rows.keys).Nodup) :
    putAll rows t = t ++ rows := by
  induction rows generalizing t with
  | nil => simp [putAll]
  | cons row rows ih =>
      obtain ⟨name, value⟩ := row
      have hkeys : t.keys ++ keys ((name, value) :: rows) = keys (t ++ [(name, value)]) ++ keys rows := by
        simp [keys]
      have hnew : name ∉ t.keys := fun hmem =>
        (List.nodup_append.1 h).2.2 name hmem name List.mem_cons_self rfl
      have hput : putAll ((name, value) :: rows) t = putAll rows (t.put name value) := rfl
      rw [hput, put_of_notMem hnew, ih (hkeys ▸ h), List.append_assoc]
      rfl

theorem ofList_of_nodup (h : t.keys.Nodup) : ofList t = t := putAll_of_nodup (t := []) h

theorem put_of_lookup {value : α} (h : t.lookup name = some value) : put name value t = t := by
  induction t with
  | nil => cases h
  | cons e t ih =>
      obtain ⟨k, v⟩ := e
      by_cases hk : k = name
      · rw [hk, List.lookup_cons_self] at h
        cases h
        simp [put, hk]
      · have hb : (name == k) = false := by simp [Ne.symm hk]
        rw [List.lookup_cons, hb] at h
        simp [put, hk, ih h]

theorem lookup_of_mem (h : t.keys.Nodup) {e : String × α} (he : e ∈ t) : t.lookup e.1 = some e.2 := by
  induction t with
  | nil => cases he
  | cons first t ih =>
      obtain ⟨hfirst, ht⟩ := List.nodup_cons.1 h
      rcases List.mem_cons.1 he with rfl | he
      · exact List.lookup_cons_self
      · have hne : e.1 ≠ first.1 := fun heq => hfirst (heq ▸ List.mem_map_of_mem he)
        rw [List.lookup_cons, beq_false_of_ne hne]
        exact ih ht he

def tabulate (value? : String → Option α) (keys : List String) : Table α :=
  keys.filterMap fun key => (value? key).map (key, ·)

theorem tabulate_cons (value? : String → Option α) (key : String) (keys : List String) :
    tabulate value? (key :: keys) = ((value? key).map (key, ·)).toList ++ tabulate value? keys := by
  rw [tabulate, List.filterMap_cons]
  cases value? key <;> rfl

theorem keys_tabulate (value? : String → Option α) (names : List String) :
    (tabulate value? names).keys = names.filter fun key => (value? key).isSome := by
  induction names with
  | nil => rfl
  | cons key names ih =>
      rw [tabulate_cons, List.filter_cons, ← ih]
      cases value? key <;> rfl

theorem lookup_tabulate (value? : String → Option α) {names : List String} (h : name ∈ names) :
    (tabulate value? names).lookup name = value? name := by
  cases hvalue : value? name with
  | none =>
      rw [lookup_eq_none, keys_tabulate, List.mem_filter]
      simp [hvalue]
  | some value =>
      induction names with
      | nil => cases h
      | cons key names ih =>
          rw [tabulate_cons, List.lookup_append]
          by_cases hkey : name = key
          · rw [← hkey, hvalue]
            simp
          · have hb : (name == key) = false := by simp [hkey]
            rw [ih ((List.mem_cons.1 h).resolve_left hkey)]
            cases value? key <;> simp [List.lookup_cons, hb]

theorem erase_cons_self (name : String) (value : α) (t : Table α) : erase name ((name, value) :: t) = erase name t :=
  List.filter_cons_of_neg (by simp)

theorem erase_cons_of_ne {other : String} (h : other ≠ name) (value : α) (t : Table α) :
    erase name ((other, value) :: t) = (other, value) :: erase name t :=
  List.filter_cons_of_pos (by simpa using h)

theorem erase_put_self (name : String) (value : α) (t : Table α) : erase name (put name value t) = erase name t := by
  induction t with
  | nil => exact erase_cons_self name value []
  | cons e t ih =>
      obtain ⟨k, v⟩ := e
      by_cases hk : k = name
      · subst hk
        rw [put, if_pos rfl, erase_cons_self, erase_cons_self]
      · rw [put, if_neg hk, erase_cons_of_ne hk, erase_cons_of_ne hk, ih]

theorem erase_put_of_ne {other : String} (h : other ≠ name) (value : α) (t : Table α) :
    erase name (put other value t) = put other value (erase name t) := by
  induction t with
  | nil => exact erase_cons_of_ne h value []
  | cons e t ih =>
      obtain ⟨k, v⟩ := e
      by_cases hk : k = other
      · subst hk
        rw [put, if_pos rfl, erase_cons_of_ne h, erase_cons_of_ne h, put, if_pos rfl]
      · rw [put, if_neg hk]
        by_cases hname : k = name
        · subst hname
          rw [erase_cons_self, erase_cons_self, ih]
        · rw [erase_cons_of_ne hname, erase_cons_of_ne hname, put, if_neg hk, ih]

theorem erase_putAll (entries t : Table α) (name : String) :
    erase name (putAll entries t) = putAll (erase name entries) (erase name t) := by
  induction entries generalizing t with
  | nil => rfl
  | cons e entries ih =>
      obtain ⟨k, v⟩ := e
      refine (ih (put k v t)).trans ?_
      by_cases hk : k = name
      · subst hk
        rw [erase_put_self, erase_cons_self]
      · rw [erase_put_of_ne hk, erase_cons_of_ne hk]
        rfl

/-- A table is known from the order of its names, from the value of one of them and from what is left without it. -/
theorem eq_of_erase_eq {s t : Table α} (hnodup : s.keys.Nodup) (hkeys : s.keys = t.keys)
    (hlookup : s.lookup name = t.lookup name) (herase : erase name s = erase name t) : s = t := by
  induction s generalizing t with
  | nil => exact (List.map_eq_nil_iff.1 hkeys.symm).symm
  | cons e s ih =>
      cases t with
      | nil => cases hkeys
      | cons e' t =>
          obtain ⟨k, v⟩ := e
          obtain ⟨k', v'⟩ := e'
          obtain ⟨rfl, hrest⟩ : k = k' ∧ keys s = keys t := List.cons.inj hkeys
          obtain ⟨hfirst, hnodup⟩ := List.nodup_cons.1 hnodup
          by_cases hk : k = name
          · subst hk
            rw [List.lookup_cons_self, List.lookup_cons_self, Option.some_inj] at hlookup
            rw [erase_cons_self, erase_cons_self] at herase
            have hnone : s.lookup k = t.lookup k := by
              rw [lookup_eq_none.2 hfirst, lookup_eq_none.2 (hrest ▸ hfirst)]
            rw [hlookup, ih hnodup hrest hnone herase]
          · rw [List.lookup_cons, List.lookup_cons, beq_false_of_ne (Ne.symm hk)] at hlookup
            rw [erase_cons_of_ne hk, erase_cons_of_ne hk] at herase
            obtain ⟨hfirst, herase⟩ := List.cons.inj herase
            rw [hfirst, ih hnodup hrest hlookup herase]

/-- A name put before all others is as if it was never put, to the other names. -/
theorem erase_ofList_cons (name : String) (value : α) (entries : Table α) :
    erase name (ofList ((name, value) :: entries)) = erase name (ofList entries) := by
  rw [ofList, ofList, erase_putAll, erase_putAll, erase_cons_self]

theorem lookup_ofList_cons (name : String) (value : α) (entries : Table α) :
    (ofList ((name, value) :: entries)).lookup name = some (((ofList entries).lookup name).getD value) := by
  rw [ofList, ofList, lookup_putAll, lookup_putAll, List.reverse_cons, List.lookup_append]
  cases entries.reverse.lookup name <;> simp

end DesignCompiler.Table

import DesignCompiler.Proofs.Records

namespace DesignCompiler

namespace Json

variable {base upper : Table Json} {name : String}

def overlay? (old : Option Json) (value : Json) : Json := old.elim value (overlay · value)

theorem overlayEntries_cons (base : Table Json) (name : String) (value : Json) (rest : Table Json) :
    overlayEntries base ((name, value) :: rest) =
      overlayEntries (Table.put name (overlay? (base.lookup name) value) base) rest := by
  rw [overlayEntries]
  cases base.lookup name <;> rfl

theorem lookup_overlayEntries (h : upper.keys.Nodup) (base : Table Json) (name : String) :
    (overlayEntries base upper).lookup name =
      ((upper.lookup name).map (overlay? (base.lookup name))).or (base.lookup name) := by
  induction upper generalizing base with
  | nil => simp [overlayEntries]
  | cons e upper ih =>
      obtain ⟨k, value⟩ := e
      obtain ⟨hk, hupper⟩ := List.nodup_cons.1 h
      rw [overlayEntries_cons, ih hupper, List.lookup_cons]
      by_cases hname : name = k
      · subst hname
        rw [Table.lookup_eq_none.2 hk, Table.lookup_put_self]
        simp
      · rw [Table.lookup_put_of_ne hname, beq_false_of_ne hname]

theorem nodup_keys_overlayEntries (h : base.keys.Nodup) (upper : Table Json) :
    (Table.keys (overlayEntries base upper)).Nodup := by
  induction upper generalizing base with
  | nil => rwa [overlayEntries]
  | cons e upper ih =>
      rw [overlayEntries_cons]
      exact ih (Table.nodup_keys_put h _ _)

/-- A layer that changes none of the values it lies on changes nothing. -/
theorem overlayEntries_of_fixed (h : ∀ e ∈ upper, ∃ value, base.lookup e.1 = some value ∧ overlay value e.2 = value) :
    overlayEntries base upper = base := by
  induction upper with
  | nil => rw [overlayEntries]
  | cons e upper ih =>
      rw [List.forall_mem_cons] at h
      obtain ⟨⟨value, hlookup, hvalue⟩, hupper⟩ := h
      rw [overlayEntries_cons, hlookup, overlay?, Option.elim_some, hvalue, Table.put_of_lookup hlookup, ih hupper]

theorem overlay_object_object (base upper : Table Json) :
    overlay (.object base) (.object upper) = .object (overlayEntries base upper) := by
  rw [overlay]

theorem overlay_of_not_object {old : Json} (h : ∀ entries, old ≠ .object entries) (value : Json) :
    overlay old value = value := by
  cases value with
  | object entries => cases old <;> simp_all [overlay]
  | _ => rfl

def distinctTable (entries : Table Json) : Table Json := .ofList (entries.map fun e => (e.1, e.2.distinct))

theorem distinct_object (entries : Table Json) : distinct (.object entries) = .object (distinctTable entries) := by
  have hentries : distinctEntries entries = entries.map fun e => (e.1, e.2.distinct) := by
    induction entries with
    | nil => rfl
    | cons e entries ih => rw [distinctEntries, ih, List.map_cons]
  rw [distinct, hentries, distinctTable]

theorem nodup_keys_distinctTable (entries : Table Json) : (distinctTable entries).keys.Nodup :=
  Table.nodup_keys_ofList _

theorem exists_of_mem_distinctTable {entries : Table Json} {e : String × Json} (h : e ∈ distinctTable entries) :
    ∃ e' ∈ entries, e = (e'.1, e'.2.distinct) := by
  obtain ⟨e', he', rfl⟩ := List.mem_map.1 (Table.mem_of_mem_ofList h)
  exact ⟨e', he', rfl⟩

/-- A layer laid over twice is as if it were laid over once. -/
theorem overlay_overlay (base layer : Json) :
    overlay (overlay base layer.distinct) layer.distinct = overlay base layer.distinct := by
  induction layer using parts_induction generalizing base with
  | object entries ih =>
      -- whatever lies under an entry, the entry does not change it a second time
      have hfixed (old : Option Json) :
          ∀ e ∈ distinctTable entries, overlay (overlay? old e.2) e.2 = overlay? old e.2 := by
        intro e he
        obtain ⟨e', he', rfl⟩ := exists_of_mem_distinctTable he
        cases old with
        | none =>
            have hnull (value : Json) : overlay .null value = value := overlay_of_not_object (by simp) value
            simpa only [hnull, overlay?, Option.elim_none] using ih e' he' .null
        | some old => exact ih e' he' old
      have hnodup := nodup_keys_distinctTable entries
      rw [distinct_object]
      by_cases hbase : ∃ b, base = .object b
      · obtain ⟨b, rfl⟩ := hbase
        rw [overlay_object_object, overlay_object_object, overlayEntries_of_fixed]
        intro e he
        refine ⟨overlay? (b.lookup e.1) e.2, ?_, hfixed _ e he⟩
        rw [lookup_overlayEntries hnodup, Table.lookup_of_mem hnodup he]
        rfl
      · rw [overlay_of_not_object fun b hb => hbase ⟨b, hb⟩, overlay_object_object, overlayEntries_of_fixed]
        exact fun e he => ⟨e.2, Table.lookup_of_mem hnodup he, hfixed none e he⟩
  | array items ih => rfl
  | _ => rfl

def at? : List String → Json → Option Json
  | [], value => some value
  | name :: path, .object entries => (entries.lookup name).bind (at? path)
  | _ :: _, _ => none

/-- A layer has a value at the end of a path, or one before it that is no object and takes the place of all below. -/
def Mentions : List String → Json → Prop
  | name :: path, .object entries => ∃ value ∈ entries.lookup name, Mentions path value
  | _, _ => True

theorem at?_eq_none_of_not_mentions {path : List String} {value : Json} (h : ¬value.Mentions path) :
    value.at? path = none := by
  induction path generalizing value with
  | nil => exact absurd trivial h
  | cons name path ih =>
      cases value with
      | object entries =>
          rw [at?, Option.bind_eq_none_iff]
          exact fun value hvalue => ih fun hmentions => h ⟨value, hvalue, hmentions⟩
      | _ => exact absurd trivial h

/-- What a layer does not mention stays as it was, at every depth. -/
theorem at?_overlay {path : List String} {layer : Json} (h : ¬layer.distinct.Mentions path) (base : Json) :
    (overlay base layer.distinct).at? path = base.at? path := by
  induction path generalizing base layer with
  | nil => exact absurd trivial h
  | cons name path ih =>
      cases layer with
      | object entries =>
          rw [distinct_object] at h ⊢
          have hnodup := nodup_keys_distinctTable entries
          have hbelow : ∀ value ∈ (distinctTable entries).lookup name, ¬value.Mentions path :=
            fun value hvalue hmentions => h ⟨value, hvalue, hmentions⟩
          by_cases hbase : ∃ b, base = .object b
          · obtain ⟨b, rfl⟩ := hbase
            rw [overlay_object_object, at?, at?, lookup_overlayEntries hnodup]
            cases hvalue : (distinctTable entries).lookup name with
            | none => rw [Option.map_none, Option.none_or]
            | some value =>
                rw [Option.map_some, Option.some_or, Option.bind_some]
                cases b.lookup name with
                | none => exact at?_eq_none_of_not_mentions (hbelow value hvalue)
                | some old =>
                    obtain ⟨e, -, heq⟩ := exists_of_mem_distinctTable (Table.mem_of_lookup hvalue)
                    obtain ⟨-, rfl⟩ := Prod.mk.inj heq
                    exact ih (hbelow _ hvalue) old
          · rw [overlay_of_not_object fun b hb => hbase ⟨b, hb⟩, at?_eq_none_of_not_mentions h]
            cases base with
            | object b => exact absurd ⟨b, rfl⟩ hbase
            | _ => rfl
      | array items => exact absurd trivial h
      | _ => exact absurd trivial h

end Json

end DesignCompiler

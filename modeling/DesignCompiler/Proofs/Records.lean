import DesignCompiler.Json.Record
import DesignCompiler.Proofs.Rereading
import DesignCompiler.Proofs.Tables

namespace DesignCompiler.Json

abbrev Slots := List (String × Option Json)

namespace Slots

variable {slots : Slots}

def names (slots : Slots) : List String := slots.map Prod.fst

def filled (slots : Slots) : List (String × Json) := slots.filterMap fun slot => slot.2.map (slot.1, ·)

variable {α : Type}

@[simp]
theorem filled_nil : filled [] = [] := rfl

@[simp]
theorem filled_cons_some (name : String) (value : Json) (slots : Slots) :
    filled ((name, some value) :: slots) = (name, value) :: filled slots := rfl

@[simp]
theorem filled_cons_map (name : String) (write : α → Json) (a : Option α) (slots : Slots) :
    filled ((name, a.map write) :: slots) = given name write a ++ filled slots := by
  cases a <;> rfl

theorem mem_filled {entry : String × Json} : entry ∈ filled slots ↔ (entry.1, some entry.2) ∈ slots := by
  obtain ⟨name, value⟩ := entry
  simp only [filled, List.mem_filterMap, Option.map_eq_some_iff, Prod.mk.injEq]
  constructor
  · rintro ⟨⟨other, slot⟩, hmem, _, rfl, rfl, rfl⟩
    exact hmem
  · exact fun h => ⟨_, h, _, rfl, rfl, rfl⟩

theorem keys_filled_sublist (slots : Slots) : ((filled slots).map Prod.fst).Sublist slots.names := by
  induction slots with
  | nil => exact List.Sublist.slnil
  | cons slot slots ih =>
      obtain ⟨name, value⟩ := slot
      cases value with
      | none => exact ih.cons name
      | some value => exact ih.cons_cons name

theorem lookup_filled (h : slots.names.Nodup) {name : String} {value : Option Json}
    (hmem : (name, value) ∈ slots) : (filled slots).lookup name = value := by
  induction slots with
  | nil => cases hmem
  | cons slot slots ih =>
      obtain ⟨hhead, htail⟩ := List.nodup_cons.1 h
      obtain ⟨other, first⟩ := slot
      rcases List.mem_cons.1 hmem with heq | hrest
      · cases heq
        cases value with
        | none =>
            refine Table.lookup_eq_none.2 fun hkey => hhead ?_
            exact (keys_filled_sublist slots).subset hkey
        | some value => simp [filled]
      · have hne : name ≠ other := by
          rintro rfl
          exact hhead (List.mem_map.2 ⟨_, hrest, rfl⟩)
        cases first with
        | none => exact ih htail hrest
        | some first =>
            rw [filled, List.filterMap_cons_some (by rfl), List.lookup_cons, beq_false_of_ne hne]
            exact ih htail hrest

/-- A reader of the declared fields finds all that is written, whatever else stands beside it. -/
theorem declared?_filled (h : slots.names.Nodup) {others : List (String × Json)}
    (hothers : ∀ entry ∈ others, entry.1 ∉ slots.names) :
    declared? slots.names (filled slots ++ others) = some (filled slots) := by
  have hfilled : (filled slots).filter (fun entry => slots.names.contains entry.1) = filled slots := by
    refine List.filter_eq_self.2 fun entry he => ?_
    simpa using (keys_filled_sublist slots).subset (List.mem_map_of_mem (f := Prod.fst) he)
  have hrest : others.filter (fun entry => slots.names.contains entry.1) = [] := by
    refine List.filter_eq_nil_iff.2 fun entry he => ?_
    simpa using hothers entry he
  rw [declared?]
  change (if (((filled slots ++ others).filter fun entry => slots.names.contains entry.1).map Prod.fst).Nodup
    then some _ else none) = _
  rw [List.filter_append, hfilled, hrest, List.append_nil, if_pos (h.sublist (keys_filled_sublist slots))]

theorem record?_filled (h : slots.names.Nodup) :
    record? slots.names (.object (filled slots)) = some (filled slots) := by
  have hdeclared : declared? slots.names (filled slots ++ []) = some (filled slots) :=
    declared?_filled h (by simp)
  rw [List.append_nil] at hdeclared
  exact hdeclared

theorem bind_eq_some {β : Type} {x : Option α} {f : α → Option β} {a : α} {b : β} (hx : x = some a)
    (hf : f a = some b) : (x >>= f) = some b := by
  rw [hx]
  exact hf

section Fields

variable {name : String} {read : Json → Option α} (write : α → Json)

theorem required?_filled (h : slots.names.Nodup) {a : α} (hmem : (name, some (write a)) ∈ slots)
    (hread : read (write a) = some a) : required? (filled slots) name read = some a := by
  rw [required?, lookup_filled h hmem]
  exact hread

theorem withDefault?_filled (h : slots.names.Nodup) {a : α} (hmem : (name, some (write a)) ∈ slots)
    (hread : read (write a) = some a) (default : α) :
    withDefault? (filled slots) name default read = some a := by
  rw [withDefault?, lookup_filled h hmem]
  exact hread

theorem nullable?_write (hnull : read .null = none) {a : α} (hread : read (write a) = some a) :
    nullable? read (write a) = some (some a) := by
  unfold nullable?
  split
  · next hwrite =>
    rw [hwrite, hnull] at hread
    cases hread
  · rw [hread]
    rfl

/-- A field that may be absent is found as it was, if no value is written as null. -/
theorem optional?_filled (h : slots.names.Nodup) {a : Option α} (hmem : (name, a.map write) ∈ slots)
    (hnull : read .null = none) (hread : ∀ x ∈ a, read (write x) = some x) :
    optional? (filled slots) name read = some a := by
  rw [optional?, withDefault?, lookup_filled h hmem]
  cases a with
  | none => rfl
  | some x => exact nullable?_write write hnull (hread x rfl)

variable (h : slots.names.Nodup)

include h

theorem optional?_float {x : Option Float} (hmem : (name, x.map float) ∈ slots) :
    optional? (filled slots) name float? = some x :=
  optional?_filled float h hmem rfl fun _ _ => rfl

theorem optional?_string {s : Option String} (hmem : (name, s.map .string) ∈ slots) :
    optional? (filled slots) name string? = some s :=
  optional?_filled .string h hmem rfl fun _ _ => rfl

theorem withDefault?_bool {b : Bool} (hmem : (name, some (.bool b)) ∈ slots) (default : Bool) :
    withDefault? (filled slots) name default bool? = some b :=
  withDefault?_filled .bool h hmem rfl default

end Fields

end Slots

section Lists

theorem natBelow?_nat {n bound : Nat} (h : n < bound) : natBelow? bound (nat n) = some n := by
  have hrange : (0 : Int) ≤ n ∧ (n : Int) < bound := ⟨Int.natCast_nonneg n, Int.ofNat_lt.2 h⟩
  rw [nat, natBelow?, if_pos hrange]
  rfl

variable {α : Type} {read : Json → Option α} {write : α → Json}

theorem list?_map (write : α → Json) {items : List α} (hread : ∀ a ∈ items, read (write a) = some a) :
    list? read (.array (items.map write)) = some items := by
  rw [list?]
  induction items with
  | nil => rfl
  | cons a items ih =>
      rw [List.map_cons, List.mapM_cons, hread a List.mem_cons_self,
        ih fun x hx => hread x (List.mem_cons_of_mem _ hx)]
      rfl

def listed (write : α → Json) : List α → Option Json
  | [] => none
  | items => some (.array (items.map write))

@[simp]
theorem Slots.filled_cons_listed (name : String) (write : α → Json) (items : List α) (slots : Slots) :
    filled ((name, listed write items) :: slots) = entries? name write items ++ filled slots := by
  cases items <;> rfl

theorem Slots.withDefault?_listed (write : α → Json) {slots : Slots} (h : slots.names.Nodup) {name : String}
    {items : List α} (hmem : (name, listed write items) ∈ slots)
    (hread : ∀ a ∈ items, read (write a) = some a) :
    withDefault? (Slots.filled slots) name [] (list? read) = some items := by
  rw [withDefault?, Slots.lookup_filled h hmem]
  cases items with
  | nil => rfl
  | cons a items => exact list?_map write hread

end Lists

section Tables

variable {α : Type} {read : Json → Option α} {write : α → Json}

theorem mapM_rows {rows : Table α} (hread : ∀ row ∈ rows, read (write row.2) = some row.2) :
    ((rows.map fun row => (row.1, write row.2)).mapM fun (name, json) => do return (name, ← read json)) =
      some rows := by
  induction rows with
  | nil => rfl
  | cons row rows ih =>
      rw [List.map_cons, List.mapM_cons, ih fun r hr => hread r (List.mem_cons_of_mem _ hr)]
      simp [hread row List.mem_cons_self]

theorem table?_map {rows : Table α} (h : rows.keys.Nodup)
    (hread : ∀ row ∈ rows, read (write row.2) = some row.2) :
    table? read (.object (rows.map fun row => (row.1, write row.2))) = some rows := by
  rw [table?, mapM_rows hread]
  exact congrArg some (Table.ofList_of_nodup h)

def tabled (write : α → Json) : Table α → Option Json
  | [] => none
  | rows => some (.object (rows.map fun row => (row.1, write row.2)))

theorem Slots.withDefault?_tabled (write : α → Json) {slots : Slots} (h : slots.names.Nodup) {name : String}
    {rows : Table α} (hmem : (name, tabled write rows) ∈ slots) (hrows : rows.keys.Nodup)
    (hread : ∀ row ∈ rows, read (write row.2) = some row.2) :
    withDefault? (Slots.filled slots) name [] (table? read) = some rows := by
  rw [withDefault?, Slots.lookup_filled h hmem]
  cases rows with
  | nil => rfl
  | cons row rows => exact table?_map hrows hread

end Tables

section Leaves

variable (f : Float → Json)

@[simp]
theorem mapFloats_bool (b : Bool) : mapFloats f (.bool b) = .bool b := rfl

@[simp]
theorem mapFloats_string (s : String) : mapFloats f (.string s) = .string s := rfl

@[simp]
theorem mapFloats_float (x : Float) : mapFloats f (float x) = f x := rfl

@[simp]
theorem isPlain_bool (b : Bool) : IsPlain (.bool b) := trivial

@[simp]
theorem isPlain_string (s : String) : IsPlain (.string s) := trivial

@[simp]
theorem isPlain_float (x : Float) : IsPlain (float x) := trivial

theorem isPlain_nat {n : Nat} (h : n < Nat.pow 2 64) : IsPlain (nat n) :=
  ⟨Int.natCast_nonneg n, Int.ofNat_le.2 (Nat.le_sub_one_of_lt h)⟩

end Leaves

namespace Slots

def mapFloats (f : Float → Json) (slots : Slots) : Slots :=
  slots.map fun slot => (slot.1, slot.2.map (Json.mapFloats f))

theorem mapFloats_filled (f : Float → Json) (slots : Slots) :
    Json.mapFloats f (.object (filled slots)) = .object (filled (slots.mapFloats f)) := by
  rw [mapFloats_object]
  congr 1
  induction slots with
  | nil => rfl
  | cons slot slots ih =>
      obtain ⟨name, value⟩ := slot
      cases value with
      | none => exact ih
      | some value => exact congrArg ((name, Json.mapFloats f value) :: ·) ih

theorem isPlain_filled {slots : Slots} :
    IsPlain (.object (filled slots)) ↔ ∀ slot ∈ slots, ∀ value ∈ slot.2, IsPlain value := by
  rw [isPlain_object]
  constructor
  · intro h slot hmem value hvalue
    exact h (slot.1, value) (mem_filled.2 (by rw [← hvalue]; exact hmem))
  · intro h entry hmem
    exact h _ (mem_filled.1 hmem) entry.2 rfl

end Slots

section Lists

variable {α : Type} {write : α → Json}

theorem listed_map {f : Float → Json} {g : α → α} {items : List α}
    (h : ∀ a ∈ items, write (g a) = (write a).mapFloats f) :
    listed write (items.map g) = (listed write items).map (Json.mapFloats f) := by
  cases items with
  | nil => rfl
  | cons a items =>
      have hitems : ((a :: items).map g).map write = ((a :: items).map write).map (Json.mapFloats f) := by
        rw [List.map_map, List.map_map]
        exact List.map_congr_left h
      change some (Json.array (((a :: items).map g).map write)) = some (Json.mapFloats f (.array _))
      rw [mapFloats_array, hitems]

@[simp]
theorem isPlain_listed {items : List α} :
    (∀ value, listed write items = some value → IsPlain value) ↔ ∀ a ∈ items, (write a).IsPlain := by
  cases items with
  | nil => simp [listed]
  | cons a items => simp [listed, isPlain_array]

end Lists

section Tables

variable {α : Type} {write : α → Json}

theorem tabled_map {f : Float → Json} {g : α → α} (h : ∀ a, write (g a) = (write a).mapFloats f)
    (rows : Table α) :
    tabled write (rows.map fun row => (row.1, g row.2)) = (tabled write rows).map (Json.mapFloats f) := by
  cases rows with
  | nil => rfl
  | cons row rows =>
      simp [tabled, mapFloats_object, Function.comp_def, h]

@[simp]
theorem isPlain_tabled {rows : Table α} :
    (∀ value, tabled write rows = some value → IsPlain value) ↔ ∀ row ∈ rows, (write row.2).IsPlain := by
  cases rows with
  | nil => simp [tabled]
  | cons row rows =>
      have hrows : IsPlain (.object ((row :: rows).map fun row => (row.1, write row.2))) ↔
          ∀ r ∈ row :: rows, (write r.2).IsPlain := by
        rw [isPlain_object, List.forall_mem_map]
      rw [← hrows]
      exact ⟨fun h => h _ rfl, fun h _ hvalue => by cases hvalue; exact h⟩

end Tables

end DesignCompiler.Json

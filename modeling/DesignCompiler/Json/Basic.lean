import DesignCompiler.Table

namespace DesignCompiler

/-- A number is a 64-bit integer, with or without sign, or a double. -/
inductive Json.Number where
  | int (i : Int)
  | float (x : Float)

/-- An object keeps its entries as they are written, repeated names included, so that a reader of records can refuse
what is given twice. -/
inductive Json where
  | null
  | bool (b : Bool)
  | number (n : Json.Number)
  | string (s : String)
  | array (items : List Json)
  | object (entries : List (String × Json))
  /-- A number above the double range, a string with a broken character or with half of a surrogate
  pair, or an object with such a name. -/
  | unreadable

namespace Json

instance : Inhabited Json := ⟨.null⟩

def nat (n : Nat) : Json := .number (.int n)

def float (x : Float) : Json := .number (.float x)

def Number.toFloat : Number → Float
  | .int i => .ofInt i
  | .float x => x

def get? (name : String) : Json → Option Json
  | .object entries => entries.reverse.lookup name
  | _ => none

mutual

/-- The value with each name of an object once: in its first place, with the value last given. -/
def distinct : Json → Json
  | .array items => .array (distinctItems items)
  | .object entries => .object (Table.ofList (distinctEntries entries))
  | value => value

def distinctItems : List Json → List Json
  | [] => []
  | item :: rest => distinct item :: distinctItems rest

def distinctEntries : List (String × Json) → List (String × Json)
  | [] => []
  | (name, value) :: rest => (name, distinct value) :: distinctEntries rest

end

mutual

/-- Whether all of a value can be read and nothing in it is nested more than `levels` deep. -/
def isReadable (levels : Nat) : Json → Bool
  | .array items =>
    match levels with
    | 0 => false
    | levels + 1 => areReadable levels items
  | .object entries =>
    match levels with
    | 0 => false
    | levels + 1 => areEntriesReadable levels entries
  | .unreadable => false
  | _ => true

def areReadable (levels : Nat) : List Json → Bool
  | [] => true
  | item :: rest => isReadable levels item && areReadable levels rest

def areEntriesReadable (levels : Nat) : List (String × Json) → Bool
  | [] => true
  | (_, value) :: rest => isReadable levels value && areEntriesReadable levels rest

end

mutual

/-- One value laid over another: objects entry by entry, anything else as a whole. -/
def overlay (base : Json) : Json → Json
  | .object entries =>
    match base with
    | .object baseEntries => .object (overlayEntries baseEntries entries)
    | _ => .object entries
  | value => value

def overlayEntries (base : List (String × Json)) : List (String × Json) → List (String × Json)
  | [] => base
  | (name, value) :: rest =>
    let merged :=
      match base.lookup name with
      | some old => overlay old value
      | none => value
    overlayEntries (Table.put name merged base) rest

end

end Json

end DesignCompiler

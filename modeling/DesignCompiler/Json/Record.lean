import DesignCompiler.Json.Basic

namespace DesignCompiler.Json

def bool? : Json → Option Bool
  | .bool b => some b
  | _ => none

def string? : Json → Option String
  | .string s => some s
  | _ => none

def float? : Json → Option Float
  | .number n => some n.toFloat
  | _ => none

/-- An integer below `bound`, not written with a point or an exponent. -/
def natBelow? (bound : Nat) : Json → Option Nat
  | .number (.int i) => if 0 ≤ i ∧ i < bound then some i.toNat else none
  | _ => none

def nullable? {α : Type} (read : Json → Option α) : Json → Option (Option α)
  | .null => some none
  | json => (read json).map some

def list? {α : Type} (read : Json → Option α) : Json → Option (List α)
  | .array items => items.mapM read
  | _ => none

def table? {α : Type} (read : Json → Option α) : Json → Option (Table α)
  | .object entries => do
    let values ← entries.mapM fun (name, json) => do return (name, ← read json)
    return Table.ofList values
  | _ => none

/-- A choice is its name, or an object that has only this name, with null. -/
def choice? : Json → Option String
  | .string s => some s
  | .object [(name, .null)] => some name
  | _ => none

/-- A choice for which an empty object may take the place of null. -/
def looseChoice? : Json → Option String
  | .object [(name, .object [])] => some name
  | json => choice? json

/-- The entries of an object that a record declares, none of them given twice. -/
def declared? (fields : List String) (entries : List (String × Json)) :
    Option (List (String × Json)) :=
  let known := entries.filter fun (name, _) => fields.contains name
  if (known.map Prod.fst).Nodup then some known else none

/-- The fields of a record that are given. A record is an object in which each declared field stands at most once,
beside others, or an array of its fields in declared order. -/
def record? (fields : List String) : Json → Option (List (String × Json))
  | .object entries => declared? fields entries
  | .array items => if items.length ≤ fields.length then some (fields.zip items) else none
  | _ => none

section Fields

variable {α : Type} (given : List (String × Json)) (name : String)

def required? (read : Json → Option α) : Option α := (given.lookup name).bind read

def withDefault? (default : α) (read : Json → Option α) : Option α :=
  match given.lookup name with
  | some json => read json
  | none => some default

def optional? (read : Json → Option α) : Option (Option α) :=
  withDefault? given name none (nullable? read)

end Fields

def given {α : Type} (name : String) (write : α → Json) : Option α → List (String × Json)
  | some a => [(name, write a)]
  | none => []

def entries? {α : Type} (name : String) (write : α → Json) : List α → List (String × Json)
  | [] => []
  | items => [(name, .array (items.map write))]

end DesignCompiler.Json

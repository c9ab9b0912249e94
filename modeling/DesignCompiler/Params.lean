import DesignCompiler.Options.Basic
import DesignCompiler.Table
import DesignCompiler.Text.Words

namespace DesignCompiler

inductive ParamValue where
  | flag
  | text (value : String)
  | table (entries : List (String × ParamValue))
  deriving Repr, BEq, Inhabited

abbrev Params := Table ParamValue

namespace Params

def tableAt (key : String) (params : Params) : Params :=
  match params.lookup key with
  | some (.table entries) => entries
  | _ => []

/-- Puts a value at the end of a path; what stands in its way is replaced by tables. -/
def insertPath (value : ParamValue) : (path : List String) → Params → Params
  | [], params => params
  | [last], params => Table.put last value params
  | head :: next :: rest, params =>
    Table.put head (.table (insertPath value (next :: rest) (tableAt head params))) params

abbrev Entry := List Char × Option (List Char)

structure Marks where
  slot : List Char
  pair : List Char
  keyValue : List Char
  nested : List Char

def Marks.of (d : Delimiters) : Marks :=
  ⟨d.slot.toList, d.pair.toList, d.keyValue.toList, d.nested.toList⟩

/-- An entry at the head of a text: a key that is not empty, and a value if the key-value mark
follows. -/
def takeEntry (m : Marks) (s : List Char) : Option (Entry × List Char) :=
  let (key, rest) := Text.breakAt [m.pair, m.keyValue] s
  if key.isEmpty then none
  else
    match Text.after? m.keyValue rest with
    | some rest =>
      let (value, rest) := Text.breakAt [m.pair] rest
      some ((key, some value), rest)
    | none => some ((key, none), rest)

theorem length_lt_of_takeEntry {m : Marks} {s rest : List Char} {e : Entry}
    (h : takeEntry m s = some (e, rest)) : rest.length < s.length := by
  have hs := Text.breakAt_append [m.pair, m.keyValue] s
  have hl := congrArg List.length hs
  simp only [List.length_append] at hl
  simp only [takeEntry] at h
  split at h
  · cases h
  · next hk =>
    have hp : 0 < (Text.breakAt [m.pair, m.keyValue] s).1.length := by
      apply List.length_pos_iff.2
      intro h0
      simp [h0] at hk
    split at h
    · next r hr =>
      have hv := congrArg List.length (Text.breakAt_append [m.pair] r)
      have ha := congrArg List.length (Text.eq_append_of_after? hr)
      simp only [List.length_append] at hv ha
      cases h
      omega
    · cases h
      omega

/-- The entries of a block, between pair marks. A pair mark has to be followed by an entry, and
nothing else may be left over; an empty pair mark separates nothing. -/
def entries? (m : Marks) (s : List Char) : Option (List Entry) :=
  match h : takeEntry m s with
  | none => none
  | some (e, rest) =>
    if rest.isEmpty && !m.pair.isEmpty then some [e]
    else if m.pair.isEmpty then none
    else
      match h' : Text.after? m.pair rest with
      | none => none
      | some next =>
        have : next.length < s.length := by
          have h1 := length_lt_of_takeEntry h
          have h2 := congrArg List.length (Text.eq_append_of_after? h')
          simp only [List.length_append] at h2
          omega
        (entries? m next).map (e :: ·)
termination_by s.length

def insertEntry (m : Marks) (params : Params) : Entry → Params
  | (key, value) =>
    let path := (Text.splitChars m.nested key).map String.ofList
    let value := match value with
      | some v => .text (.ofList v)
      | none => .flag
    insertPath value path params

/-- The parameters of a name. In `Title??content=title&style.color=red&ellipsis` a block of pairs follows the slot
mark; a key without a value is a flag, and a key of several segments is a path into nested tables. A block that does
not follow the grammar has no parameters. -/
def parse (d : Delimiters) (name : String) : Params :=
  let m := Marks.of d
  match Text.cut? m.slot name.toList with
  | none => []
  | some (_, block) =>
    match entries? m block with
    | none => []
    | some entries => entries.foldl (insertEntry m) []

def contains (key : String) (params : Params) : Bool := Table.contains key params

def value? (key : String) (params : Params) : Option String :=
  match params.lookup key with
  | some (.text v) => some v
  | _ => none

def table? (key : String) (params : Params) : Option Params :=
  match params.lookup key with
  | some (.table entries) => some entries
  | _ => none

end Params

def stripNonWord (s : List Char) : List Char := s.filter Options.isWordChar

/-- The name of a component: what stands before the slot mark, without the characters that no
identifier has. -/
def componentName (d : Delimiters) (name : String) : String :=
  let chars := name.toList
  let stem := ((Text.cut? d.slot.toList chars).map Prod.fst).getD chars
  .ofList (stripNonWord stem)

def componentInstance (name suffix : String) : String := name ++ suffix

def fileStem (component : String) : String :=
  .ofList (Text.kebabChars (stripNonWord component.toList))

end DesignCompiler

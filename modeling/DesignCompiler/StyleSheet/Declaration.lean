import DesignCompiler.StyleSheet.Token

namespace DesignCompiler.StyleSheet

structure Declaration where
  property : String
  value : String
  important : Bool
  deriving Repr, DecidableEq

namespace Reading

def digits : Reading Unit := skipWhile Char.isDigit

def optionalIdent : Reading Unit := fun s =>
  let (_, rest) := ident.run s
  (some (), rest)

/-- One part of a value: a color or a name after `#`, a number with a unit, a quoted text, a comma or a
slash, or a name, which may have arguments. -/
def term : Reading Unit := do
  match (← next?) with
  | none => failure
  | some '#' =>
    skip 1
    let (name, rest) := ident.run (← get)
    set rest
    if name.isNone then
      skipWhile fun c => c.isDigit || ('a' ≤ c && c ≤ 'f') || ('A' ≤ c && c ≤ 'F')
  | some '"' | some '\'' => let _ ← identOrQuoted
  | some ',' | some '/' => skip 1
  | some c =>
    if c = '+' || c = '-' || c = '.' || c.isDigit then
      skip 1
      digits
      if (← next?) = some '.' then
        skip 1
        digits
      if (← next?) = some '%' then skip 1 else optionalIdent
    else
      let _ ← ident
      if (← next?) = some '(' then
        skipWhile (· != ')')
        need ')'

def terms : (fuel : Nat) → (after : List Char) → Reading (List Char)
  | 0, after => return after
  | fuel + 1, after => do
    let (found, rest) := term.run (← get)
    set rest
    if found.isNone then return after
    blanks
    terms fuel rest

def importance : Reading Bool := do
  if (← next?) != some '!' then return false
  skip 1
  blanks
  if "important".toList.isPrefixOf (← get) then
    skip 9
    return true
  else return false

def semicolons : (fuel : Nat) → Reading Unit
  | 0 => failure
  | fuel + 1 => do
    if (← next?) = some ';' then
      skip 1
      blanks
      semicolons fuel

def declaration : Reading Declaration := do
  blanks
  optional '*'
  let property ← ident
  blanks
  need ':'
  blanks
  let start ← get
  let after ← terms (start.length + 1) start
  let value := start.take (start.length - after.length)
  blanks
  let important ← importance
  blanks
  semicolons ((← get).length + 1)
  if value.isEmpty then failure
  return ⟨.ofList property, .ofList value, important⟩

/-- The declarations of a block up to its closing brace, which stays unless a mistake is skipped. -/
def block : (fuel : Nat) → List Char → List Declaration × List Char
  | 0, s => ([], s)
  | _, [] => ([], [])
  | _, '}' :: rest => ([], '}' :: rest)
  | fuel + 1, s =>
    match declaration.run s with
    | (some d, rest) =>
      let (more, rest) := block fuel rest
      (d :: more, rest)
    | (none, rest) => ([], skipBlock 0 rest)

end Reading

def declarationsWithin : (fuel : Nat) → List Char → List Declaration
  | 0, _ => []
  | fuel + 1, s =>
    match (Reading.declaration.run s).run with
    | (some d, rest) => d :: declarationsWithin fuel rest
    | (none, _) => []

def declarations (s : String) : List Declaration := declarationsWithin (s.length + 1) s.toList

end DesignCompiler.StyleSheet

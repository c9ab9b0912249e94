import DesignCompiler.Xml.Name

namespace DesignCompiler.StyleSheet

/-- A step that takes something from the front of a text. One that fails keeps what it has taken, since a reader of
style sheets goes on after a mistake from where it was found. -/
abbrev Reading := OptionT (StateM (List Char))

def isSpace (c : Char) : Bool := Xml.isSpace c || c = '\x0c'

def isNameStart (c : Char) : Bool := c.isAlpha || c = '_' || 237 < c.toNat

def isNameChar (c : Char) : Bool := isNameStart c || c.isDigit || c = '-'

namespace Reading

def next? : Reading (Option Char) := return (← get).head?

def skip (n : Nat) : Reading Unit := modify (·.drop n)

def need (c : Char) : Reading Unit := do
  if (← next?) = some c then skip 1 else failure

def optional (c : Char) : Reading Unit := do
  if (← next?) = some c then skip 1

def skipWhile (p : Char → Bool) : Reading Unit := modify (·.dropWhile p)

def spaces : Reading Unit := skipWhile isSpace

def comment : Reading Unit := do
  need '/'
  need '*'
  match Xml.takeUntil? ['*', '/'] (← get) with
  | some (_, rest) => set rest
  | none =>
    set ([] : List Char)
    failure

def blanksWithin : (fuel : Nat) → Reading Unit
  | 0 => failure
  | fuel + 1 => do
    spaces
    if ['/', '*'].isPrefixOf (← get) then
      comment
      blanksWithin fuel

def blanks : Reading Unit := do blanksWithin ((← get).length + 1)

def ident : Reading (List Char) := do
  let dash := (← get).takeWhile (· = '-') |>.take 1
  skip dash.length
  match (← get) with
  | [] => if dash.isEmpty then failure else return dash
  | c :: rest =>
    if !isNameStart c then failure
    set (rest.dropWhile isNameChar)
    return dash ++ c :: rest.takeWhile isNameChar

/-- The characters up to a quote that no backslash precedes. -/
def takeQuoted (quote : Char) (before : Char) : List Char → List Char × List Char
  | [] => ([], [])
  | c :: rest =>
    if c = quote && before != '\\' then ([], c :: rest)
    else
      let (text, rest) := takeQuoted quote c rest
      (c :: text, rest)

def quoted (quote : Char) : Reading (List Char) := do
  need quote
  let (text, rest) := takeQuoted quote quote (← get)
  set rest
  need quote
  return text

def identOrQuoted : Reading (List Char) := do
  match (← next?) with
  | some '"' => quoted '"'
  | some '\'' => quoted '\''
  | _ => ident

def skipBlock : (level : Nat) → List Char → List Char
  | _, [] => []
  | level, '{' :: rest => skipBlock (level + 1) rest
  | 0, '}' :: rest => rest
  | level + 1, '}' :: rest => skipBlock level rest
  | level, _ :: rest => skipBlock level rest

end Reading

end DesignCompiler.StyleSheet

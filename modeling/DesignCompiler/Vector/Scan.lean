import DesignCompiler.Decimal.Reading
import DesignCompiler.Xml.Name

namespace DesignCompiler.Vector

abbrev Scan := StateT (List Char) Option

/-- What follows the digits and the point of a number: an exponent, or a unit that begins like one. -/
def takeExponent? (s : List Char) : Option (List Char × List Char) :=
  match s with
  | e :: c :: rest =>
    if !(e = 'e' || e = 'E') || c = 'm' || c = 'x' then some ([], s)
    else if c = '+' || c = '-' || c.isDigit then
      some (e :: c :: rest.takeWhile Char.isDigit, rest.dropWhile Char.isDigit)
    else none
  | [e] => if e = 'e' || e = 'E' then none else some ([], s)
  | [] => some ([], s)

def takeNumber? (s : List Char) : Option (Float × List Char) := do
  let s := Xml.skipSpaces s
  let (sign, s) :=
    match s with
    | '+' :: rest => (['+'], rest)
    | '-' :: rest => (['-'], rest)
    | _ => ([], s)
  let whole := s.takeWhile Char.isDigit
  let s := s.dropWhile Char.isDigit
  let (fraction, s) :=
    match s with
    | '.' :: rest => ('.' :: rest.takeWhile Char.isDigit, rest.dropWhile Char.isDigit)
    | _ => ([], s)
  let (exponent, s) ← takeExponent? s
  let x ← Decimal.readFloat? (.ofList (sign ++ whole ++ fraction ++ exponent))
  if x.isFinite then some (x, s) else none

namespace Scan

variable {α : Type}

def next? : Scan (Option Char) := return (← get).head?

def spaces : Scan Unit := modify Xml.skipSpaces

def skip (n : Nat) : Scan Unit := modify (·.drop n)

def optional (c : Char) : Scan Unit := do
  if (← next?) = some c then skip 1

def need (c : Char) : Scan Unit := do
  if (← next?) = some c then skip 1 else failure

def needText (s : String) : Scan Unit := fun rest => (Xml.need? s rest).map fun rest => ((), rest)

def takeWhile (p : Char → Bool) : Scan (List Char) := modifyGet fun s => (s.takeWhile p, s.dropWhile p)

def number : Scan Float := takeNumber?

def listNumber : Scan Float := do
  let x ← number
  spaces
  optional ','
  return x

def word : Scan String := do
  return .ofList (← takeWhile fun c => c.isAlphanum || c = '-' || c = '_')

def front? (step : Scan α) (s : String) : Option α := (step.run s.toList).map Prod.fst

def all? (step : Scan α) (s : String) : Option α :=
  (step.run s.toList).bind fun (a, rest) => if rest.isEmpty then some a else none

def repeated (step : Scan α) : (fuel : Nat) → Scan (List α)
  | 0 => failure
  | fuel + 1 => do
    spaces
    if (← get).isEmpty then return []
    else return (← step) :: (← repeated step fuel)

def leading (step : Scan α) : (fuel : Nat) → List Char → List α
  | 0, _ => []
  | fuel + 1, s =>
    match step.run s with
    | some (a, rest) => a :: leading step fuel rest
    | none => []

end Scan

def link? : String → Option String := Scan.all? do
  Scan.spaces
  Scan.need '#'
  let name ← Scan.takeWhile (· != ' ')
  Scan.spaces
  if name.isEmpty then failure else return .ofList name

def Scan.quotedLink (quote : Char) : Scan (List Char) := do
  need quote
  spaces
  need '#'
  let name ← takeWhile (· != quote)
  need quote
  return (name.reverse.dropWhile Xml.isSpace).reverse

def Scan.linkArgument : Scan String := do
  need '('
  spaces
  let name ← match (← next?) with
    | some '"' => quotedLink '"'
    | some '\'' => quotedLink '\''
    | _ => do
      need '#'
      takeWhile fun c => c != ' ' && c != ')'
  spaces
  need ')'
  if name.isEmpty || name.any fun c => c = '"' || c = '\'' then failure else return .ofList name

def linkFunction? : String → Option String := Scan.all? do
  Scan.spaces
  Scan.needText "url"
  let name ← Scan.linkArgument
  Scan.spaces
  return name

end DesignCompiler.Vector

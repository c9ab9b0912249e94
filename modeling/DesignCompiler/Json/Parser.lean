import DesignCompiler.Json.Basic
import DesignCompiler.Decimal.Reading

namespace DesignCompiler.Json

open Decimal

def isSpace (c : Char) : Bool := c = ' ' || c = '\n' || c = '\t' || c = '\r'

/-- Characters, some of which may be broken. These make the strings unreadable that they stand in, and may not stand
elsewhere. -/
abbrev Chars := List (Option Char)

def skipSpace (s : Chars) : Chars := s.dropWhile (·.any isSpace)

def maxWord : Nat := Nat.pow 2 64 - 1

/-- As many of the digits `s` as can follow `start` in 64 bits, and the digits that cannot. -/
def takeWord (start : Nat) : List Char → Nat × List Char
  | [] => (start, [])
  | c :: cs =>
    let next := 10 * start + digitValue c
    if maxWord < next then (start, c :: cs) else takeWord next cs

def powerOfTen (n : Nat) : Float := Float.ofScientific 1 false n

def divideByPower (x : Float) (n : Nat) : Float :=
  if h : n ≤ 308 then x / powerOfTen n
  else if x == 0 then x
  else divideByPower (x / powerOfTen 308) (n - 308)
termination_by n

def scale? (significand : Nat) (exponent : Int) : Option Float :=
  let x := Float.ofNat significand
  if exponent < 0 then some (divideByPower x exponent.natAbs)
  else if 308 < exponent then (if significand = 0 then some x else none)
  else
    let y := x * powerOfTen exponent.natAbs
    if y.isInf then none else some y

/-- The number that the digits of a whole part, a fraction and an exponent write. Digits that do not
fit 64 bits count as zeros in the whole part and are dropped from the fraction. -/
def decimal? (whole fraction : List Char) (exponent : Int) : Option Float :=
  let (significand, excess) := takeWord 0 whole
  let (significand, dropped) := takeWord significand fraction
  let used := fraction.length - dropped.length
  let shift : Int := (excess.length : Int) - used
  if Int.pow 2 31 ≤ exponent then (if significand = 0 then some 0 else none)
  else if exponent ≤ -Int.pow 2 31 then some 0
  else scale? significand (shift + exponent)

/-- A fraction after a whole part: none is empty, and a point needs a digit. -/
def readFraction? : List Char → Option (List Char × List Char)
  | '.' :: t =>
    let digits := t.takeWhile Char.isDigit
    if digits.isEmpty then none else some (digits, t.dropWhile Char.isDigit)
  | t => some ([], t)

def readExponentPart? : List Char → Option (Option Int × List Char)
  | c :: t =>
    if c = 'e' || c = 'E' then
      let (negative, t) :=
        match t with
        | '-' :: r => (true, r)
        | '+' :: r => (false, r)
        | _ => (false, t)
      let digits := t.takeWhile Char.isDigit
      if digits.isEmpty then none
      else
        let n : Int := natOfDigits 0 digits
        some (some (if negative then -n else n), t.dropWhile Char.isDigit)
    else some (none, c :: t)
  | [] => some (none, [])

/-- A whole number is an integer if it fits 64 bits; minus zero is a double. -/
def wholeNumber? (negative : Bool) (whole : List Char) : Option Number :=
  let n := natOfDigits 0 whole
  if negative then
    if n = 0 then some (.float (-0.0))
    else if n ≤ Nat.pow 2 63 then some (.int (-n))
    else (decimal? whole [] 0).map fun x => .float (-x)
  else if n ≤ maxWord then some (.int n)
  else (decimal? whole [] 0).map .float

def readNumber? (s : List Char) : Option (Option Number × List Char) := do
  let (negative, s) :=
    match s with
    | '-' :: r => (true, r)
    | _ => (false, s)
  let whole := s.takeWhile Char.isDigit
  if whole.isEmpty || (whole.head? = some '0' && 1 < whole.length) then none
  let (fraction, rest) ← readFraction? (s.dropWhile Char.isDigit)
  let (exponent, rest) ← readExponentPart? rest
  if fraction.isEmpty && exponent.isNone then
    return (wholeNumber? negative whole, rest)
  let x := decimal? whole fraction (exponent.getD 0)
  return (x.map fun x => .float (if negative then -x else x), rest)

def isNumberChar (c : Char) : Bool := c.isDigit || ['-', '+', '.', 'e', 'E'].contains c

def readNumberOf? (s : Chars) : Option (Option Number × Chars) :=
  let candidate := (s.takeWhile (·.any isNumberChar)).filterMap id
  (readNumber? candidate).map fun (n, rest) => (n, s.drop (candidate.length - rest.length))

def hexValue? (c : Char) : Option Nat :=
  if c.isDigit then some (c.toNat - '0'.toNat)
  else if 'a' ≤ c && c ≤ 'f' then some (c.toNat - 'a'.toNat + 10)
  else if 'A' ≤ c && c ≤ 'F' then some (c.toNat - 'A'.toNat + 10)
  else none

def readUnit? : Chars → Option (Nat × Chars)
  | some a :: some b :: some c :: some d :: rest => do
    return (((← hexValue? a) * 16 + (← hexValue? b)) * 256 + (← hexValue? c) * 16 + (← hexValue? d), rest)
  | _ => none

/-- The character of an escape after `\u`: one unit, or a high and a low surrogate. A surrogate without
the other one is no character. -/
def readEscapedUnit? (s : Chars) : Option (Option Char × Chars) := do
  let (unit, rest) ← readUnit? s
  if unit < 0xD800 || 0xDFFF < unit then return (some (Char.ofNat unit), rest)
  else if unit < 0xDC00 then
    match rest with
    | some '\\' :: some 'u' :: next =>
      let (low, next) ← readUnit? next
      if 0xDC00 ≤ low && low ≤ 0xDFFF then
        return (some (Char.ofNat (0x10000 + (unit - 0xD800) * 0x400 + (low - 0xDC00))), next)
      else return (none, rest)
    | _ => return (none, rest)
  else return (none, rest)

def readEscape? : Chars → Option (Option Char × Chars)
  | some '"' :: r => some ('"', r)
  | some '\\' :: r => some ('\\', r)
  | some '/' :: r => some ('/', r)
  | some 'b' :: r => some ('\x08', r)
  | some 'f' :: r => some ('\x0c', r)
  | some 'n' :: r => some ('\n', r)
  | some 'r' :: r => some ('\r', r)
  | some 't' :: r => some ('\t', r)
  | some 'u' :: r => readEscapedUnit? r
  | _ => none

/-- The rest of a string after its opening quote; `done` holds what was read, last character first,
unless a part of it was no character. -/
def readString? (done : Option (List Char)) : (fuel : Nat) → Chars → Option (Option String × Chars)
  | 0, _ => none
  | _ + 1, [] => none
  | _ + 1, some '"' :: rest => some (done.map fun chars => .ofList chars.reverse, rest)
  | fuel + 1, some '\\' :: rest =>
    match readEscape? rest with
    | some (c, rest) => readString? (done.bind fun chars => c.map (· :: chars)) fuel rest
    | none => none
  | fuel + 1, c :: rest =>
    if c.any fun c => c.toNat < 0x20 then none
    else readString? (done.bind fun chars => c.map (· :: chars)) fuel rest

def readWord? (word : String) (value : Json) (s : Chars) : Option (Json × Chars) :=
  let w := word.toList.map some
  if w.isPrefixOf s then some (value, s.drop w.length) else none

def ofPart {α : Type} (make : α → Json) (part : Option α) : Json := (part.map make).getD .unreadable

mutual

/-- A value after any blanks. An item, an entry or a bracket takes at least one character, so that
`fuel` above twice the length of the text is enough. -/
def readValue? : (fuel : Nat) → Chars → Option (Json × Chars)
  | 0, _ => none
  | fuel + 1, s =>
    match skipSpace s with
    | some '"' :: rest =>
      (readString? (some []) (rest.length + 1) rest).map fun (t, r) => (ofPart .string t, r)
    | some '[' :: rest =>
      match skipSpace rest with
      | some ']' :: rest => some (.array [], rest)
      | rest => (readItems? fuel rest).map fun (items, r) => (.array items, r)
    | some '{' :: rest =>
      match skipSpace rest with
      | some '}' :: rest => some (.object [], rest)
      | rest => (readEntries? fuel rest).map fun (entries, r) => (ofPart .object entries, r)
    | some 't' :: rest => readWord? "true" (.bool true) (some 't' :: rest)
    | some 'f' :: rest => readWord? "false" (.bool false) (some 'f' :: rest)
    | some 'n' :: rest => readWord? "null" .null (some 'n' :: rest)
    | rest => (readNumberOf? rest).map fun (n, r) => (ofPart .number n, r)

def readItems? : (fuel : Nat) → Chars → Option (List Json × Chars)
  | 0, _ => none
  | fuel + 1, s =>
    match readValue? fuel s with
    | none => none
    | some (item, rest) =>
      match skipSpace rest with
      | some ']' :: rest => some ([item], rest)
      | some ',' :: rest => (readItems? fuel rest).map fun (items, r) => (item :: items, r)
      | _ => none

def readEntries? : (fuel : Nat) → Chars → Option (Option (List (String × Json)) × Chars)
  | 0, _ => none
  | fuel + 1, s =>
    match skipSpace s with
    | some '"' :: rest =>
      match readString? (some []) (rest.length + 1) rest with
      | none => none
      | some (name, rest) =>
        match skipSpace rest with
        | some ':' :: rest =>
          match readValue? fuel rest with
          | none => none
          | some (value, rest) =>
            let entry := name.map fun name => (name, value)
            match skipSpace rest with
            | some '}' :: rest => some (entry.map ([·]), rest)
            | some ',' :: rest =>
              (readEntries? fuel rest).map fun (entries, r) =>
                (entry.bind fun e => entries.map (e :: ·), r)
            | _ => none
        | _ => none
    | _ => none

end

def readChars? (s : Chars) : Option Json :=
  match readValue? (2 * s.length + 2) s with
  | some (value, rest) => if (skipSpace rest).isEmpty then some value else none
  | none => none

def read? (s : String) : Option Json := readChars? (s.toList.map some)

def maxLevels : Nat := 127

def parse? (s : String) : Option Json := (read? s).filter (isReadable maxLevels)

end DesignCompiler.Json

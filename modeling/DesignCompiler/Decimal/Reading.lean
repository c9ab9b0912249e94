namespace DesignCompiler.Decimal

def digitValue (c : Char) : Nat := c.toNat - '0'.toNat

def natOfDigits (start : Nat) (s : List Char) : Nat :=
  s.foldl (fun n c => 10 * n + digitValue c) start

/-- The double nearest to `mantissa * 10 ^ exponent`. The guards keep numbers that are certain to be
zero or infinite from being written out. -/
def nearestFloat (mantissa : Nat) (exponent : Int) : Float :=
  let size : Int := (toString mantissa).length + exponent
  if mantissa = 0 || size < -400 then 0
  else if 400 < size then 1.0 / 0.0
  else Float.ofScientific mantissa (exponent < 0) exponent.natAbs

def readExponent? (s : List Char) : Option Int :=
  let (negative, digits) :=
    match s with
    | '-' :: rest => (true, rest)
    | '+' :: rest => (false, rest)
    | _ => (false, s)
  if digits.isEmpty || !digits.all Char.isDigit then none
  else some (if negative then -(natOfDigits 0 digits : Int) else natOfDigits 0 digits)

/-- An unsigned decimal: digits on at least one side of the point, then an optional exponent. -/
def readMagnitude? (s : List Char) : Option Float :=
  let whole := s.takeWhile Char.isDigit
  let afterWhole := s.dropWhile Char.isDigit
  let (fraction, rest) :=
    match afterWhole with
    | '.' :: t => (t.takeWhile Char.isDigit, t.dropWhile Char.isDigit)
    | t => ([], t)
  if whole.isEmpty && fraction.isEmpty then none
  else
    let mantissa := natOfDigits (natOfDigits 0 whole) fraction
    let exponent? :=
      match rest with
      | [] => some 0
      | 'e' :: t | 'E' :: t => readExponent? t
      | _ => none
    exponent?.map fun e => nearestFloat mantissa (e - fraction.length)

def readFloat? (s : String) : Option Float :=
  let (negative, magnitude) :=
    match s.toList with
    | '-' :: rest => (true, rest)
    | '+' :: rest => (false, rest)
    | cs => (false, cs)
  let word := String.ofList (magnitude.map Char.toLower)
  let value? :=
    if word = "inf" || word = "infinity" then some (1.0 / 0.0)
    else if word = "nan" then some (0.0 / 0.0)
    else readMagnitude? magnitude
  value?.map fun x => if negative then -x else x

def readWord? (s : String) : Option Nat :=
  let digits :=
    match s.toList with
    | '+' :: rest => rest
    | cs => cs
  if digits.isEmpty || !digits.all Char.isDigit then none
  else
    let n := natOfDigits 0 digits
    if n < Nat.pow 2 64 then some n else none

end DesignCompiler.Decimal

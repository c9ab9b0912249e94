import DesignCompiler.Decimal.Binary

namespace DesignCompiler.Decimal

structure Digits where
  digits : Nat
  exponent : Int
  deriving DecidableEq, Repr

def comparePowers (a : Nat) (k : Int) (b : Nat) (e : Int) : Ordering :=
  compare (a * Nat.pow 10 k.toNat * Nat.pow 2 (-e).toNat)
    (b * Nat.pow 2 e.toNat * Nat.pow 10 (-k).toNat)

/-- The real numbers that round to one binary64 number: those between `low` and `high` quarters,
in units of `2 ^ exponent`; `centre` is the number itself. -/
structure Interval where
  low : Nat
  centre : Nat
  high : Nat
  exponent : Int
  closed : Bool

/-- Below a power of two the next number is half as far away as above it. -/
def Binary.interval (b : Binary) : Interval where
  low :=
    if b.mantissa = Nat.pow 2 52 ∧ b.exponent ≠ -1074 then 4 * b.mantissa - 1 else 4 * b.mantissa - 2
  centre := 4 * b.mantissa
  high := 4 * b.mantissa + 2
  exponent := b.exponent - 2
  closed := b.mantissa % 2 == 0

def Interval.contains (i : Interval) (a : Nat) (k : Int) : Bool :=
  let low := comparePowers a k i.low i.exponent
  let high := comparePowers a k i.high i.exponent
  if i.closed then low != .lt && high != .gt else low == .gt && high == .lt

def Interval.floor (i : Interval) (k : Int) : Nat :=
  i.centre * Nat.pow 2 i.exponent.toNat * Nat.pow 10 (-k).toNat /
    (Nat.pow 10 k.toNat * Nat.pow 2 (-i.exponent).toNat)

/-- The multiple of `10 ^ k` in the interval that is nearest to its centre; of two, the even one. -/
def Interval.nearest? (i : Interval) (k : Int) : Option Nat :=
  let below := i.floor k
  match i.contains below k && below != 0, i.contains (below + 1) k with
  | false, false => none
  | true, false => some below
  | false, true => some (below + 1)
  | true, true =>
    match comparePowers (2 * below + 1) k (2 * i.centre) i.exponent with
    | .gt => some below
    | .lt => some (below + 1)
    | .eq => some (below + below % 2)

/-- The first grid with a point in the interval, from steps of `10 ^ (k + tries)` downwards. -/
def Interval.search (i : Interval) (k : Int) : Nat → Digits
  | 0 => ⟨i.floor k, k⟩
  | tries + 1 =>
    match i.nearest? (k + tries) with
    | some d => ⟨d, k + tries⟩
    | none => i.search k tries

def Digits.strip (d : Digits) : Nat → Digits
  | 0 => d
  | tries + 1 =>
    if d.digits % 10 = 0 then Digits.strip ⟨d.digits / 10, d.exponent + 1⟩ tries else d

/-- The number of decimal digits before the point of `num / den`, or minus the number of zeros after
it. -/
def magnitude (num den : Nat) : Int :=
  if den ≤ num then (toString (num / den)).length
  else 1 - ((toString (den / num)).length : Int)

/-- The fewest digits that read back as `b`, nearest to `b` among those. -/
def Binary.shortest (b : Binary) : Digits :=
  if b.mantissa = 0 then ⟨0, 0⟩
  else
    let (num, den) := b.scaled 0
    (b.interval.search (magnitude num den - 19) 20).strip 20

def zeros (n : Nat) : String := .ofList (List.replicate n '0')

/-- Digits with a point after the first `point` of them; nothing follows a point at the end. -/
def placePoint (digits : String) (point : Int) : String :=
  if point ≤ 0 then "0." ++ zeros (-point).toNat ++ digits
  else
    let n := point.toNat
    if digits.length ≤ n then digits ++ zeros (n - digits.length)
    else .ofList (digits.toList.take n) ++ "." ++ .ofList (digits.toList.drop n)

def plain (x : Float) : String :=
  match Binary.ofFloat? x with
  | none => if x.isNaN then "NaN" else if x < 0 then "-inf" else "inf"
  | some b =>
    let d := b.shortest
    let digits := toString d.digits
    (if b.negative then "-" else "") ++
      (if d.digits = 0 then "0" else placePoint digits (digits.length + d.exponent))

/-- The shortest decimal with a fraction of at least one digit, or with an exponent when the point
is more than sixteen places right of the first digit or five left of it. -/
def scientific (b : Binary) : String :=
  let d := b.shortest
  let digits := toString d.digits
  let point : Int := digits.length + d.exponent
  (if b.negative then "-" else "") ++
    (if d.digits = 0 then "0.0"
    else if 0 ≤ d.exponent ∧ point ≤ 16 then placePoint digits point ++ ".0"
    else if -5 < point ∧ point ≤ 16 then placePoint digits point
    else
      (if digits.length = 1 then digits else placePoint digits 1) ++ "e" ++ toString (point - 1))

end DesignCompiler.Decimal

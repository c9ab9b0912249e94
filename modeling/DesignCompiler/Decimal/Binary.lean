namespace DesignCompiler.Decimal

structure Binary where
  negative : Bool
  mantissa : Nat
  exponent : Int
  deriving DecidableEq, Repr

def Binary.ofFloat? (x : Float) : Option Binary :=
  let bits := x.toBits.toNat
  let negative := bits / Nat.pow 2 63 = 1
  let exponentField : Nat := bits / Nat.pow 2 52 % Nat.pow 2 11
  let fraction := bits % Nat.pow 2 52
  if exponentField = 2047 then none
  else if exponentField = 0 then some ⟨negative, fraction, -1074⟩
  else some ⟨negative, fraction + Nat.pow 2 52, exponentField - 1075⟩

def Binary.scaled (b : Binary) (places : Nat) : Nat × Nat :=
  if 0 ≤ b.exponent then (b.mantissa * Nat.pow 2 b.exponent.toNat * Nat.pow 10 places, 1)
  else (b.mantissa * Nat.pow 10 places, Nat.pow 2 (-b.exponent).toNat)

def Binary.truncate (b : Binary) : Int :=
  let (num, den) := b.scaled 0
  if b.negative then -(num / den : Nat) else (num / den : Nat)

def Binary.isInteger (b : Binary) : Bool :=
  let (num, den) := b.scaled 0
  num % den == 0

def roundHalfEven (num den : Nat) : Nat :=
  let floor := num / den
  let twice := 2 * (num % den)
  if twice < den then floor
  else if den < twice then floor + 1
  else floor + floor % 2

/-- What is left of `x` after `y` is taken away as often as its size allows: exact, with the sign of
`x`. -/
def remainder (x y : Float) : Float :=
  match Binary.ofFloat? x, Binary.ofFloat? y with
  | some a, some b =>
    let low := min a.exponent b.exponent
    let left :=
      a.mantissa * Nat.pow 2 (a.exponent - low).toNat % (b.mantissa * Nat.pow 2 (b.exponent - low).toNat)
    let size := (Float.ofNat left).scaleB low
    if a.negative then -size else size
  | _, _ => x

/-- The nearest integer towards zero that fits 64 bits with sign; a NaN counts as zero. -/
def clampToInt64 (x : Float) : Int :=
  match Binary.ofFloat? x with
  | some b => max (-Int.pow 2 63) (min (Int.pow 2 63 - 1) b.truncate)
  | none => if x.isNaN then 0 else if x < 0 then -Int.pow 2 63 else Int.pow 2 63 - 1

end DesignCompiler.Decimal

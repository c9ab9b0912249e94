import DesignCompiler.Decimal.Shortest

namespace DesignCompiler.Decimal

def fixed (places : Nat) (x : Float) : String :=
  match Binary.ofFloat? x with
  | none => plain x
  | some b =>
    let (num, den) := b.scaled places
    let digits := toString (roundHalfEven num den)
    let padded := zeros (places + 1 - digits.length) ++ digits
    (if b.negative then "-" else "") ++ placePoint padded (padded.length - places)

def dropZeros (s : String) : String :=
  let rest := s.toList.reverse.dropWhile (· == '0')
  .ofList (rest.dropWhile (· == '.')).reverse

/-- At most four decimals and no zeros at the end; a whole number stops at the ends of the 64-bit
range. -/
def text (x : Float) : String :=
  let rounded := (x * 10000).round / 10000
  match Binary.ofFloat? rounded with
  | none => dropZeros (plain rounded)
  | some b =>
    if b.mantissa = 0 then "0"
    else if b.isInteger then toString (clampToInt64 rounded)
    else dropZeros (fixed 4 rounded)

end DesignCompiler.Decimal

namespace DesignCompiler

abbrev Bytes := List UInt8

namespace Bytes

def ofString (s : String) : Bytes := s.toUTF8.toList

def lead? (b : Nat) : Option (Nat × List (Nat × Nat)) :=
  let tail := (0x80, 0xBF)
  if b < 0x80 then some (b, [])
  else if 0xC2 ≤ b && b ≤ 0xDF then some (b - 0xC0, [tail])
  else if b = 0xE0 then some (0, [(0xA0, 0xBF), tail])
  else if b = 0xED then some (0xD, [(0x80, 0x9F), tail])
  else if 0xE1 ≤ b && b ≤ 0xEF then some (b - 0xE0, [tail, tail])
  else if b = 0xF0 then some (0, [(0x90, 0xBF), tail, tail])
  else if b = 0xF4 then some (4, [(0x80, 0x8F), tail, tail])
  else if 0xF1 ≤ b && b ≤ 0xF3 then some (b - 0xF0, [tail, tail, tail])
  else none

/-- The character that `value` begins, if all the ranges are met, and what is left over. -/
def follow (value : Nat) : (ranges : List (Nat × Nat)) → Bytes → Option Char × Bytes
  | [], bytes => (some (Char.ofNat value), bytes)
  | _ :: _, [] => (none, [])
  | (low, high) :: ranges, b :: bytes =>
    if low ≤ b.toNat && b.toNat ≤ high then follow (value * 64 + b.toNat % 64) ranges bytes
    else (none, b :: bytes)

theorem length_follow_le (value : Nat) (ranges : List (Nat × Nat)) (bytes : Bytes) :
    (follow value ranges bytes).2.length ≤ bytes.length := by
  induction ranges generalizing value bytes with
  | nil => simp [follow]
  | cons r rs ih =>
    cases bytes with
    | nil => simp [follow]
    | cons b bs =>
      simp only [follow]
      split
      · exact Nat.le_succ_of_le (ih _ _)
      · exact Nat.le_refl _

def chars : Bytes → List (Option Char)
  | [] => []
  | b :: bytes =>
    match lead? b.toNat with
    | none => none :: chars bytes
    | some (value, ranges) =>
      have := length_follow_le value ranges bytes
      (follow value ranges bytes).1 :: chars (follow value ranges bytes).2
termination_by bytes => bytes.length

def text? (bytes : Bytes) : Option String := ((chars bytes).mapM id).map .ofList

/-- The text with a replacement character for everything that is not UTF-8. -/
def lossyText (bytes : Bytes) : String :=
  .ofList ((chars bytes).map fun c => c.getD '\uFFFD')

end Bytes

end DesignCompiler

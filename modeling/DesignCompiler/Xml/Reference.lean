import DesignCompiler.Decimal.Reading
import DesignCompiler.Json.Parser
import DesignCompiler.Xml.Name

namespace DesignCompiler.Xml

inductive Reference where
  | char (c : Char)
  | entity (name : List Char)

/-- The character of a code point that fits 32 bits; a surrogate stands for a replacement. -/
def charOfCode? (n : Nat) : Option Char :=
  let c := if n.isValidChar then Char.ofNat n else '\uFFFD'
  if n < Nat.pow 2 32 && isChar c then some c else none

def hexOfDigits (s : List Char) : Nat :=
  s.foldl (fun n c => 16 * n + (Json.hexValue? c).getD 0) 0

def takeReference? (s : List Char) : Option (Reference × List Char) := do
  let (reference, rest) ← match s with
    | '#' :: 'x' :: s =>
      let digits := s.takeWhile fun c => (Json.hexValue? c).isSome
      if digits.isEmpty then none
      else some (.char (← charOfCode? (hexOfDigits digits)), s.drop digits.length)
    | '#' :: s =>
      let digits := s.takeWhile Char.isDigit
      if digits.isEmpty then none
      else some (.char (← charOfCode? (Decimal.natOfDigits 0 digits)), s.drop digits.length)
    | s =>
      let (name, rest) ← takeName? s
      some (match String.ofList name with
        | "quot" => .char '"'
        | "amp" => .char '&'
        | "apos" => .char '\''
        | "lt" => .char '<'
        | "gt" => .char '>'
        | _ => .entity name, rest)
  return (reference, ← need? ";" rest)

inductive Piece where
  | plain (c : Char)
  | reference (r : Reference)
  /-- An ampersand that begins no reference, and all after it. -/
  | malformed

def takePieces : (fuel : Nat) → List Char → List Piece
  | _, [] => []
  | 0, _ => [.malformed]
  | fuel + 1, '&' :: s =>
    match takeReference? s with
    | some (r, rest) => .reference r :: takePieces fuel rest
    | none => [.malformed]
  | fuel + 1, c :: s => .plain c :: takePieces fuel s

def pieces (s : List Char) : List Piece := takePieces s.length s

end DesignCompiler.Xml

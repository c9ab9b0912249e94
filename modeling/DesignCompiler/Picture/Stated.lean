import DesignCompiler.Picture.ContentType
import DesignCompiler.Bytes.Word

namespace DesignCompiler.Picture

open Bytes

inductive Format where
  | png | jpeg | gif | webp
  deriving Repr, DecidableEq

def shortestHead : Nat := 12

def format? (bytes : Bytes) : Option Format :=
  if bytes.length < shortestHead then none
  else if (fixed [0xFF, 0xD8, 0xFF]).begins bytes then some .jpeg
  else if (fixed [0x89, 0x50, 0x4E, 0x47, 0x0D, 0x0A, 0x1A, 0x0A]).begins bytes then some .png
  else if (letters "GIF8").begins bytes then some .gif
  else if (letters "RIFF" ++ gap 4 ++ letters "WEBP").begins bytes then some .webp
  else none

def highFirst? (bytes : Bytes) (place width : Nat) : Option Nat :=
  (split? width (bytes.drop place)).map fun (number, _) => bigEndian number

def lowFirst? (bytes : Bytes) (place width : Nat) : Option Nat :=
  (split? width (bytes.drop place)).map fun (number, _) => littleEndian number

def beginsFrame (marker : UInt8) : Bool :=
  0xC0 ≤ marker && marker ≤ 0xCF && marker != 0xC4 && marker != 0xC8 && marker != 0xCC

/-- The size in the first frame that is in none of the pictures inside; `level` counts those that are open.
-/
def statedInSegments? : (fuel level : Nat) → Bytes → Option (Nat × Nat)
  | fuel + 1, level, 0xFF :: marker :: rest =>
    if beginsFrame marker && level = 0 then do
      return (← highFirst? rest 5 2, ← highFirst? rest 3 2)
    else if marker = 0xD9 && level = 0 then none
    else do
      let length ← highFirst? rest 0 2
      let level := if marker = 0xD8 then level + 1 else if marker = 0xD9 then level - 1 else level
      if length < 2 then none else statedInSegments? fuel level (rest.drop length)
  | _, _, _ => none

/-- The size in the first chunk of a container; the last letter of its name decides where. -/
def statedInChunk? (bytes : Bytes) : Option (Nat × Nat) := do
  match bytes.byte 15 with
  | 0x20 => return ((← lowFirst? bytes 26 2) % Nat.pow 2 14, (← lowFirst? bytes 28 2) % Nat.pow 2 14)
  | 0x4C =>
    let bits ← lowFirst? bytes 21 4
    return (bits % Nat.pow 2 14 + 1, bits / Nat.pow 2 14 % Nat.pow 2 14 + 1)
  | 0x58 => return ((← lowFirst? bytes 24 3) + 1, (← lowFirst? bytes 27 3) + 1)
  | _ => none

def statedSize? (bytes : Bytes) : Option (Nat × Nat) := do
  match ← format? bytes with
  | .png => return (← highFirst? bytes 16 4, ← highFirst? bytes 20 4)
  | .gif => return (← lowFirst? bytes 6 2, ← lowFirst? bytes 8 2)
  | .jpeg => statedInSegments? bytes.length 0 (bytes.drop 2)
  | .webp => statedInChunk? bytes

end DesignCompiler.Picture

import DesignCompiler.Bytes.Word

namespace DesignCompiler.Picture.Gif

open Bytes

def extensionMark : UInt8 := 0x21

def endMark : UInt8 := 0x3B

def controlLabel : UInt8 := 0xF9

def dataLabels : List UInt8 := [0x01, 0xFE, 0xFF]

/-- The number of bytes of the color table that the flags of a screen announce. -/
def tableLength (flags : Nat) : Nat := if flags < 0x80 then 0 else 3 * Nat.pow 2 (flags % 8 + 1)

def skipParts? : (fuel : Nat) → Bytes → Option Bytes
  | 0, _ | _, [] => none
  | fuel + 1, length :: rest =>
    if length = 0 then some rest
    else (split? length.toNat rest).bind fun (_, rest) => skipParts? fuel rest

/-- What follows an extension, from its label on. It has a first part, even one of no length, before the
others; that of control takes four bytes. -/
def skipExtension? (bytes : Bytes) : Option Bytes :=
  match bytes with
  | label :: length :: rest =>
    if dataLabels.contains label || (label = controlLabel && length = 4) then
      (split? length.toNat rest).bind fun (_, rest) => skipParts? rest.length rest
    else none
  | _ => none

/-- Whether the extensions end: another mark follows them, and something follows that mark. The mark after
the last block may end the file, but not where there is no block at all. -/
def endsExtensions : (fuel : Nat) → (afterOne : Bool) → Bytes → Bool
  | 0, _, _ | _, _, [] => false
  | fuel + 1, afterOne, mark :: rest =>
    if mark = extensionMark then (skipExtension? rest).any (endsExtensions fuel true)
    else !rest.isEmpty || (afterOne && mark = endMark)

def size? (bytes : Bytes) : Option (Nat × Nat) := do
  let (screen, rest) ← split? 13 bytes
  let (_, blocks) ← split? (tableLength (screen.byte 10)) rest
  if endsExtensions blocks.length false blocks then
    some (littleEndian (screen.slice 6 2), littleEndian (screen.slice 8 2))
  else none

end DesignCompiler.Picture.Gif

import DesignCompiler.Bytes.Word

namespace DesignCompiler.Picture

open Bytes

namespace Png

def signature : Bytes := [0x89, 0x50, 0x4E, 0x47, 0x0D, 0x0A, 0x1A, 0x0A]

def crcShift (c : UInt32) : UInt32 :=
  if c &&& 1 = 1 then (c >>> 1) ^^^ (0xEDB88320 : UInt32) else c >>> 1

def crcByte (c : UInt32) (b : UInt8) : UInt32 :=
  (List.range 8).foldl (fun c _ => crcShift c) (c ^^^ b.toUInt32)

def crc (bytes : Bytes) : Nat := (bytes.foldl crcByte (0xFFFFFFFF : UInt32) ^^^ (0xFFFFFFFF : UInt32)).toNat

structure Chunk where
  name : Bytes
  data : Bytes

def Chunk.encode (c : Chunk) : Bytes :=
  Bytes.ofNat 4 c.data.length ++ c.name ++ c.data ++ Bytes.ofNat 4 (crc (c.name ++ c.data))

/-- The name of a chunk that a reader has to know begins with a capital. -/
def Chunk.isCritical (c : Chunk) : Bool := c.name.head?.any fun b => b &&& 0x20 = 0

def isColorDepth (color depth : Nat) : Bool :=
  match color with
  | 0 => [1, 2, 4, 8, 16].contains depth
  | 3 => [1, 2, 4, 8].contains depth
  | 2 | 4 | 6 => depth = 8 || depth = 16
  | _ => false

/-- Samples of a pixel by the kind of color, where colors of a table are spelled out. -/
def samples (color : Nat) : Nat :=
  match color with
  | 0 => 1
  | 4 => 2
  | 2 | 3 => 3
  | _ => 4

def maxRow : Nat := Nat.pow 2 29

/-- The number of bytes in a row of pixels. Samples of less than a byte take a byte. -/
def rowLength (width color depth : Nat) : Nat := width * samples color * (max depth 8 / 8)

def headerSize? (data : Bytes) : Option (Nat × Nat) :=
  match data with
  | a :: b :: c :: d :: e :: f :: g :: h :: depth :: color :: compression :: filter :: interlace :: _ =>
    let width := bigEndian [a, b, c, d]
    let height := bigEndian [e, f, g, h]
    if width != 0 && height != 0 && isColorDepth color.toNat depth.toNat && compression = 0 && filter = 0
      && interlace ≤ 1 && rowLength width color.toNat depth.toNat ≤ maxRow then some (width, height)
    else none
  | _ => none

/-- A chunk and what follows it. A critical one has to have a right checksum, any other counts as not
known without. -/
def takeChunk? (bytes : Bytes) : Option (Chunk × Bytes) := do
  let (length, rest) ← split? 4 bytes
  let (name, rest) ← split? 4 rest
  let (data, rest) ← split? (bigEndian length) rest
  let (sum, rest) ← split? 4 rest
  let chunk : Chunk := ⟨name, data⟩
  if crc (name ++ data) = bigEndian sum then some (chunk, rest)
  else if chunk.isCritical then none
  else some (⟨Bytes.ofString "none", []⟩, rest)

def isPalette (data : Bytes) : Bool :=
  data.length % 3 = 0 && 0 < data.length && data.length ≤ 768

def isFrameControl (size : Nat × Nat) (index : Nat) (data : Bytes) : Bool :=
  26 ≤ data.length && bigEndian (data.slice 0 4) = index
    && bigEndian (data.slice 4 4) = size.1 && bigEndian (data.slice 8 4) = size.2
    && bigEndian (data.slice 12 4) = 0 && bigEndian (data.slice 16 4) = 0
    && data.byte 24 ≤ 2 && data.byte 25 ≤ 1

structure Met where
  palette : Bool := false
  frames : Nat := 0

/-- Takes in a chunk before the pixels. The header and the table of colors stand once; what is not
critical is not looked at, but for the frames of an animation. -/
def Met.add? (size : Nat × Nat) (met : Met) (chunk : Chunk) : Option Met :=
  if chunk.name = Bytes.ofString "PLTE" then
    if !met.palette && isPalette chunk.data then some { met with palette := true } else none
  else if chunk.name = Bytes.ofString "fcTL" then
    if isFrameControl size met.frames chunk.data then some { met with frames := met.frames + 1 }
    else none
  else if chunk.isCritical then none
  else some met

/-- Whether a chunk of pixels begins after some other chunks; those of an animation begin after the
description of a frame. -/
def reachesPixels (size : Nat × Nat) : (fuel : Nat) → Met → Bytes → Bool
  | 0, _, _ => false
  | fuel + 1, met, bytes =>
    let name := bytes.slice 4 4
    if name = Bytes.ofString "IDAT" then true
    else if name = Bytes.ofString "fdAT" then 0 < met.frames && 4 ≤ bigEndian (bytes.take 4)
    else
      match takeChunk? bytes with
      | none => false
      | some (chunk, rest) => (met.add? size chunk).any fun met => reachesPixels size fuel met rest

/-- The size in the header of a picture that goes on at least to its pixels. -/
def size? (bytes : Bytes) : Option (Nat × Nat) := do
  let (header, rest) ← takeChunk? (bytes.drop signature.length)
  if header.name ≠ Bytes.ofString "IHDR" then none
  let size ← headerSize? header.data
  if reachesPixels size rest.length {} rest then some size else none

def packBits : List Bool → Bytes
  | [] => []
  | a :: b :: c :: d :: e :: f :: g :: h :: rest => byte [a, b, c, d, e, f, g, h] :: packBits rest
  | bits => [byte bits]
where
  byte (bits : List Bool) : UInt8 :=
    .ofNat (bits.foldr (fun bit n => bit.toNat + 2 * n) 0)

def codeBits (width n : Nat) : List Bool :=
  (List.range width).reverse.map fun i => n / Nat.pow 2 i % 2 = 1

/-- A compressed run of `n` zero bytes: one zero, copies of 258 zeros, and single zeros. -/
def zeroRun (n : Nat) : Bytes :=
  let copies := (n - 1) / 258
  let single := codeBits 8 0x30
  packBits <|
    [true, true, false] ++ single
      ++ (List.replicate copies (codeBits 8 0xC5 ++ codeBits 5 0)).flatten
      ++ (List.replicate (n - 1 - 258 * copies) single).flatten
      ++ codeBits 7 0

def zeroStream (n : Nat) : Bytes :=
  [0x78, 0x01] ++ zeroRun n ++ Bytes.ofNat 4 (n % 65521 * 65536 + 1)

def blank (width height : Nat) : Bytes :=
  let header := Bytes.ofNat 4 width ++ Bytes.ofNat 4 height ++ [1, 0, 0, 0, 0]
  signature
    ++ Chunk.encode ⟨Bytes.ofString "IHDR", header⟩
    ++ Chunk.encode ⟨Bytes.ofString "tRNS", [0, 0]⟩
    ++ Chunk.encode ⟨Bytes.ofString "IDAT", zeroStream (((width + 7) / 8 + 1) * height)⟩
    ++ Chunk.encode ⟨Bytes.ofString "IEND", []⟩

end Png

end DesignCompiler.Picture

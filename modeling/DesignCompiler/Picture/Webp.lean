import DesignCompiler.Bytes.Word

namespace DesignCompiler.Picture.Webp

open Bytes

structure Chunk where
  name : Bytes
  start : Nat
  length : Nat
  deriving Repr, DecidableEq

def Chunk.next (c : Chunk) : Nat :=
  c.start + min (c.length + c.length % 2) (Nat.pow 2 32 - 1)

def Chunk.isNamed (name : String) (c : Chunk) : Bool := c.name = Bytes.ofString name

def Chunk.read? (file : Bytes) (place : Nat) : Option Chunk := do
  let (head, _) ← split? 8 (file.drop place)
  return ⟨head.take 4, place + 8, littleEndian (head.drop 4)⟩

def lossySize? (data : Bytes) : Option (Nat × Nat) := do
  let (head, _) ← split? 10 data
  let width := littleEndian (head.slice 6 2) % Nat.pow 2 14
  let height := littleEndian (head.slice 8 2) % Nat.pow 2 14
  if head.byte 0 % 2 = 0 && head.slice 3 3 = [0x9D, 0x01, 0x2A] && width != 0 && height != 0 then
    some (width, height)
  else none

/-- The size of a lossless frame: 14 bits each, less one, so that the largest size reads as zero. -/
def losslessSize? (data : Bytes) : Option (Nat × Nat) := do
  let (head, _) ← split? 5 data
  let bits := littleEndian (head.drop 1)
  if head.byte 0 = 0x2F && bits / Nat.pow 2 29 = 0 then
    some ((bits + 1) % Nat.pow 2 14, (bits / Nat.pow 2 14 + 1) % Nat.pow 2 14)
  else none

def isLossy (c : Chunk) : Bool := c.isNamed "VP8 " || c.isNamed "ALPH"

/-- Whether an animation frame is large enough for its head, and for the head of its picture, which is
looked for up to the first lossy one. -/
def isFrame (file : Bytes) (lossyMet : Bool) (c : Chunk) : Bool :=
  24 ≤ c.length && c.start + (if lossyMet then 16 else 24) ≤ file.length

def readChunks? (file : Bytes) (limit : Nat) :
    (fuel : Nat) → (place : Nat) → (lossyMet : Bool) → Option (List Chunk)
  | 0, _, _ => some []
  | fuel + 1, place, lossyMet =>
    if limit ≤ place then some []
    else
      match Chunk.read? file place with
      | none => some []
      | some c =>
        if c.isNamed "ANMF" then
          if isFrame file lossyMet c then
            let lossyMet := lossyMet || (Chunk.read? file (c.start + 16)).any isLossy
            (readChunks? file limit fuel c.next lossyMet).map (c :: ·)
          else none
        else (readChunks? file limit fuel c.next lossyMet).map (c :: ·)

def hasLoopCount (file : Bytes) (chunks : List Chunk) : Bool :=
  (chunks.find? (·.isNamed "ANIM")).any fun c => c.length = 6 && c.start + 6 ≤ file.length

/-- Whether the first animation frame has the head of a chunk, and as many bytes more if it has room for two
chunks. -/
def hasPicture (file : Bytes) (chunks : List Chunk) : Bool :=
  (chunks.find? (·.isNamed "ANMF")).all fun frame =>
    match Chunk.read? file (frame.start + 16) with
    | none => false
    | some c => frame.start + frame.length < c.next + 8 || (Chunk.read? file c.start).isSome

def canvasSize? (file : Bytes) (canvas : Chunk) : Option (Nat × Nat) := do
  let (head, _) ← split? 10 (file.drop canvas.start)
  let width := littleEndian (head.slice 4 3) + 1
  let height := littleEndian (head.slice 7 3) + 1
  let limit := canvas.next + (littleEndian (file.slice 4 4) - 12)
  let chunks ← readChunks? file limit file.length canvas.next false
  let has (name : String) : Bool := chunks.any (·.isNamed name)
  let announced (bit : Nat) : Bool := head.byte 0 / bit % 2 = 1
  let pixels :=
    if announced 2 then has "ANIM" && has "ANMF" && hasLoopCount file chunks
    else has "VP8 " != has "VP8L"
  if width * height < Nat.pow 2 32 && pixels && (!announced 8 || has "EXIF")
      && (!announced 4 || has "XMP ") && hasPicture file chunks then some (width, height)
  else none

def size? (file : Bytes) : Option (Nat × Nat) := do
  let chunk ← Chunk.read? file 12
  let data := file.drop chunk.start
  if chunk.isNamed "VP8 " then lossySize? data
  else if chunk.isNamed "VP8L" then losslessSize? data
  else if chunk.isNamed "VP8X" then canvasSize? file chunk
  else none

end DesignCompiler.Picture.Webp

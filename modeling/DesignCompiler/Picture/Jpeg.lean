import DesignCompiler.Bytes.Word

namespace DesignCompiler.Picture.Jpeg

open Bytes

def maxComponents : Nat := 4

structure Frame where
  width : Nat
  height : Nat
  ids : List UInt8
  deriving Repr, DecidableEq

def isPowerOfTwo (n : Nat) : Bool := [1, 2, 4, 8].contains n

def isComponent (bytes : Bytes) : Bool :=
  isPowerOfTwo (bytes.byte 1 / 16) && isPowerOfTwo (bytes.byte 1 % 16) && bytes.byte 2 < maxComponents

def Frame.read? (data : Bytes) : Option Frame := do
  let (fixed, components) ← split? 6 data
  let height := bigEndian (fixed.slice 1 2)
  let width := bigEndian (fixed.slice 3 2)
  let count := fixed.byte 5
  let parts := (List.range count).map fun i => components.slice (3 * i) 3
  if fixed.byte 0 = 8 && width != 0 && height != 0 && 0 < count && count ≤ maxComponents
      && components.length = 3 * count && parts.all isComponent then
    some ⟨width, height, parts.map (·.headD 0)⟩
  else none

/-- Whether a scan header names components of the frame, none of them twice, and ranges of
coefficients and of bits that there are. -/
def isScan (frame : Frame) (data : Bytes) : Bool :=
  let count := data.byte 0
  let ids := (List.range count).map fun i => data.getD (1 + 2 * i) 0
  let ranges : Bytes := data.drop (1 + 2 * count)
  0 < count && count ≤ maxComponents && data.length = 4 + 2 * count && ids.Nodup
    && ids.all frame.ids.contains
    && ranges.byte 0 < 64 && ranges.byte 1 < 64 && ranges.byte 2 / 16 ≤ 13 && ranges.byte 2 % 16 ≤ 13

def areQuantizationTables : (fuel : Nat) → Bytes → Bool
  | _, [] => true
  | 0, _ => false
  | fuel + 1, head :: rest =>
    let precision := head.toNat / 16
    precision ≤ 1 && head.toNat % 16 < maxComponents
      && (split? (64 * (precision + 1)) rest).any fun (_, rest) => areQuantizationTables fuel rest

/-- Whether there are codes of lengths 1, 2, … in these numbers, of which none is all ones and none
begins another; `code` is the first code of the next length. -/
def areCodeCounts (length code : Nat) : List Nat → Bool
  | [] => true
  | n :: rest =>
    if (n :: rest).all (· = 0) then true
    else code + n < Nat.pow 2 length && areCodeCounts (length + 1) (2 * (code + n)) rest

def areFirstSymbols (symbols : Bytes) : Bool := symbols.all fun s => s.toNat ≤ 15

def areCodeTables : (fuel : Nat) → Bytes → Bool
  | _, [] => true
  | 0, _ => false
  | fuel + 1, bytes =>
    match split? 17 bytes with
    | none => false
    | some (head, rest) =>
      let kind := head.byte 0 / 16
      let counts := head.tail.map UInt8.toNat
      let skipped := counts.takeWhile (· = 0)
      kind ≤ 1 && head.byte 0 % 16 < maxComponents && counts.sum ≤ 256
        && areCodeCounts (skipped.length + 1) 0 (counts.drop skipped.length)
        && (split? counts.sum rest).any fun (symbols, rest) =>
          (kind = 1 || areFirstSymbols symbols) && areCodeTables fuel rest

/-- Whether a segment for color spaces names one that there is; one of another sender is passed over. -/
def isColorSegment (data : Bytes) : Bool :=
  12 ≤ data.length && (data.take 5 != Bytes.ofString "Adobe" || data.byte 11 ≤ 2)

def isOtherFrame (marker : UInt8) : Bool :=
  0xC3 ≤ marker && marker ≤ 0xCF && marker != 0xC4 && marker != 0xC8 && marker != 0xCC

/-- Whether a segment can stand before the first scan. Arithmetic codes and numbers of lines are not
read; all that is unknown is passed over. -/
def isSound (marker : UInt8) (data : Bytes) : Bool :=
  match marker with
  | 0xC4 => areCodeTables data.length data
  | 0xDB => areQuantizationTables data.length data
  | 0xDD => data.length = 2
  | 0xEE => isColorSegment data
  | 0xCC | 0xD9 | 0xDC => false
  | marker => !isOtherFrame marker

/-- The number of bytes after a length, which counts itself. The mark of a sender takes five bytes where
its length leaves four. -/
def dataLength (marker : UInt8) (length : Nat) : Nat :=
  if marker = 0xE0 && length = 6 then 5 else length - 2

def readSegments? (frame : Option Frame) : (fuel : Nat) → Bytes → Option Frame
  | 0, _ => none
  | fuel + 1, bytes => do
    let rest := (bytes.dropWhile (· != 0xFF)).dropWhile (· == 0xFF)
    let marker ← rest.head?
    if marker = 0 then readSegments? frame fuel rest
    else
      let (length, rest) ← split? 2 (rest.drop 1)
      if bigEndian length < 2 then none
      let (data, rest) ← split? (dataLength marker (bigEndian length)) rest
      match marker, frame with
      | 0xDA, some frame => if isScan frame data then some frame else none
      | 0xDA, none => none
      | 0xC0, none | 0xC1, none | 0xC2, none => readSegments? (some (← Frame.read? data)) fuel rest
      | 0xC0, some _ | 0xC1, some _ | 0xC2, some _ => none
      | marker, frame => if isSound marker data then readSegments? frame fuel rest else none

def size? (bytes : Bytes) : Option (Nat × Nat) :=
  (readSegments? none bytes.length (bytes.drop 2)).map fun frame => (frame.width, frame.height)

end DesignCompiler.Picture.Jpeg

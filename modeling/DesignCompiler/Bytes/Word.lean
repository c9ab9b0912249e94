import DesignCompiler.Bytes.Utf8

namespace DesignCompiler.Bytes

def bigEndian (bytes : Bytes) : Nat := bytes.foldl (fun n b => 256 * n + b.toNat) 0

def littleEndian (bytes : Bytes) : Nat := bytes.foldr (fun b n => b.toNat + 256 * n) 0

def ofNat (width n : Nat) : Bytes :=
  (List.range width).reverse.map fun i => UInt8.ofNat (n / Nat.pow 256 i)

def split? (n : Nat) (bytes : Bytes) : Option (Bytes × Bytes) :=
  let (front, rest) := bytes.splitAt n
  if front.length = n then some (front, rest) else none

def byte (bytes : Bytes) (i : Nat) : Nat := (bytes.getD i 0).toNat

def slice (bytes : Bytes) (start length : Nat) : Bytes := (bytes.drop start).take length

end DesignCompiler.Bytes

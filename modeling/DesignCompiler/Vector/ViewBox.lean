import DesignCompiler.Vector.Shape

namespace DesignCompiler.Vector

def Node.viewBox? (n : Node) : Option Extent := do
  let (x, y, width, height) ← Scan.front? (do
    return (← Scan.listNumber, ← Scan.listNumber, ← Scan.listNumber, ← Scan.listNumber))
    (← n.property? "viewBox")
  if width ≤ 0 || height ≤ 0 then none
  (Extent.ofSize? x.toFloat32 y.toFloat32 width.toFloat32 height.toFloat32).filter Extent.isSolid

/-- How a view box is fitted: where spare room goes, or else by a factor for each direction. -/
structure Fit where
  spare : Option (Float32 × Float32)
  slice : Bool

def Fit.centered : Fit := ⟨some (0.5, 0.5), false⟩

def sidesOf? : String → Option (Float32 × Float32)
  | "xMinYMin" => some (0, 0)
  | "xMidYMin" => some (0.5, 0)
  | "xMaxYMin" => some (1, 0)
  | "xMinYMid" => some (0, 0.5)
  | "xMidYMid" => some (0.5, 0.5)
  | "xMaxYMid" => some (1, 0.5)
  | "xMinYMax" => some (0, 1)
  | "xMidYMax" => some (0.5, 1)
  | "xMaxYMax" => some (1, 1)
  | _ => none

def Fit.parse? : String → Option Fit := Scan.all? do
  Scan.spaces
  let first ← Scan.word
  Scan.spaces
  let first ← if first = "defer" then Scan.word else pure first
  Scan.spaces
  let last ← Scan.word
  if last != "" && last != "meet" && last != "slice" then failure
  Scan.spaces
  match sidesOf? first with
  | some sides => return ⟨some sides, last = "slice"⟩
  | none => if first = "none" then return ⟨none, last = "slice"⟩ else failure

def Node.fit (n : Node) : Fit := ((n.property? "preserveAspectRatio").bind Fit.parse?).getD .centered

def Fit.transform (f : Fit) (box : Extent) (width height : Float32) : Transform :=
  let x := width / box.width
  let y := height / box.height
  match f.spare with
  | none => ⟨x, 0, -box.left * x, 0, y, -box.top * y⟩
  | some (across, down) =>
    let k := if f.slice then (if x < y then y else x) else if y < x then y else x
    let place (start spare part : Float32) : Float32 :=
      if part == 0 then start else if part == 1 then start + spare else start + spare / 2
    ⟨k, 0, place (-box.left * k) (width - box.width * k) across,
      0, k, place (-box.top * k) (height - box.height * k) down⟩

end DesignCompiler.Vector

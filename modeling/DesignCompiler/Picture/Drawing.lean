import DesignCompiler.Picture.Png
import DesignCompiler.Vector.Size
import DesignCompiler.Xml.Document

namespace DesignCompiler.Picture

inductive RasterError where
  | parse
  | closedTwice
  | allocation (width height : Nat)
  deriving Repr, DecidableEq

def RasterError.message : RasterError → String
  | .parse | .closedTwice => "Invalid SVG: "
  | .allocation width height => s!"Cannot allocate a {width}x{height} pixmap"

abbrev Rasterizer := (markup : String) → (scale : Float) → Except RasterError Bytes

def maxEdge : Nat := 16384

def scaledEdge (edge : Float32) (scale : Float) : Nat :=
  let pixels := (edge.toFloat * scale).ceil
  if 1 < pixels then pixels.toUInt32.toNat else 1

def rasterSize (markup : String) (scale : Float) : Except RasterError (Nat × Nat) :=
  match (Xml.parse markup).map Vector.size? with
  | .error .closedTwice => .error .closedTwice
  | .error .malformed | .ok none => .error .parse
  | .ok (some edges) =>
    let size := (scaledEdge edges.x scale, scaledEdge edges.y scale)
    if maxEdge < size.1 || maxEdge < size.2 then .error (.allocation size.1 size.2) else .ok size

/-- A blank picture of the size of a drawing, whose shapes are not painted. -/
def rasterize (markup : String) (scale : Float) : Except RasterError Bytes :=
  (rasterSize markup scale).map fun (width, height) => Png.blank width height

end DesignCompiler.Picture

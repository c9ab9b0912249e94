import DesignCompiler.Vector.Node
import DesignCompiler.Vector.PathData

namespace DesignCompiler.Vector

namespace Node

variable (n : Node)

def length? (name : String) : Option Length := (n.property? name).bind Length.parse?

def pixels (view : View) (name : String) (direction : Direction) (default : Length) : Float32 :=
  ((n.length? name).getD default).pixels direction view n.letters

def across (view : View) (name : String) : Float32 := n.pixels view name .across .zero

def down (view : View) (name : String) : Float32 := n.pixels view name .down .zero

/-- The radii of an ellipse or of rounded corners. A negative one does not count, and one stands for both.
-/
def radii (view : View) : Float32 × Float32 :=
  let given? (name : String) := (n.length? name).filter fun l => l.number.toBits < 0x8000000000000000
  let across? := (given? "rx").map fun l => l.pixels .across view n.letters
  let down? := (given? "ry").map fun l => l.pixels .down view n.letters
  ((across?.or down?).getD 0, (down?.or across?).getD 0)

end Node

def isPositive (x : Float32) : Bool := 0 < x && x.isFinite

def Pen.arcTo (pen : Pen) (rx ry x y : Float32) : Pen :=
  match pen.here? with
  | some p => pen.arc {
      start := ⟨p.x.toFloat, p.y.toFloat⟩, stop := ⟨x.toFloat, y.toFloat⟩
      radii := ⟨rx.toFloat, ry.toFloat⟩, turn := 0, large := false, clockwise := true }
  | none => pen

def Pen.lineTo (pen : Pen) (x y : Float32) : Pen := pen.draw (.line ⟨x, y⟩)

def ellipse? (cx cy rx ry : Float32) : Option Outline :=
  if isPositive rx && isPositive ry then
    let pen := Pen.move {} ⟨cx + rx, cy⟩
    let pen := pen.arcTo rx ry cx (cy + ry)
    let pen := pen.arcTo rx ry (cx - rx) cy
    let pen := pen.arcTo rx ry cx (cy - ry)
    let pen := pen.arcTo rx ry (cx + rx) cy
    pen.close.outline?
  else none

def roundedRectangle? (x y width height rx ry : Float32) : Option Outline :=
  let pen := Pen.move {} ⟨x + rx, y⟩
  let pen := pen.lineTo (x + width - rx) y
  let pen := pen.arcTo rx ry (x + width) (y + ry)
  let pen := pen.lineTo (x + width) (y + height - ry)
  let pen := pen.arcTo rx ry (x + width - rx) (y + height)
  let pen := pen.lineTo (x + rx) (y + height)
  let pen := pen.arcTo rx ry x (y + height - ry)
  let pen := pen.lineTo x (y + ry)
  let pen := pen.arcTo rx ry (x + rx) y
  pen.close.outline?

def rectangle? (x y width height : Float32) (radii : Float32 × Float32) : Option Outline := do
  if !isPositive width || !isPositive height then none
  let rx := if width / 2 < radii.1 then width / 2 else radii.1
  let ry := if height / 2 < radii.2 then height / 2 else radii.2
  if rx == 0 && ry == 0 then
    let e ← Extent.ofSize? x y width height
    return [.move ⟨e.left, e.top⟩, .line ⟨e.right, e.top⟩, .line ⟨e.right, e.bottom⟩,
      .line ⟨e.left, e.bottom⟩, .close]
  else roundedRectangle? x y width height rx ry

def Node.outline? (n : Node) (view : View) : Option Outline :=
  match n.kind with
  | "rect" =>
    rectangle? (n.across view "x") (n.down view "y") (n.across view "width") (n.down view "height")
      (n.radii view)
  | "circle" =>
    let r := n.pixels view "r" .diagonal .zero
    ellipse? (n.across view "cx") (n.down view "cy") r r
  | "ellipse" =>
    let (rx, ry) := n.radii view
    ellipse? (n.across view "cx") (n.down view "cy") rx ry
  | "line" =>
    let pen := Pen.move {} ⟨n.across view "x1", n.down view "y1"⟩
    (pen.lineTo (n.across view "x2") (n.down view "y2")).outline?
  | "polyline" => (n.property? "points").bind fun points => outlineOfPoints? points false
  | "polygon" => (n.property? "points").bind fun points => outlineOfPoints? points true
  | "path" => (n.property? "d").bind outlineOfPath?
  | _ => none

end DesignCompiler.Vector

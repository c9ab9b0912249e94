import DesignCompiler.Vector.ViewBox

namespace DesignCompiler.Vector

structure Vertex where
  point : Spot
  arrival : Option Spot
  departure : Option Spot

def toward (p q : Spot) : Spot := ⟨q.x - p.x, q.y - p.y⟩

/-- The direction from a point to the first of others that differs from it. -/
def directionTo (p : Spot) : List Spot → Option Spot
  | [] => none
  | q :: rest => if q.x == p.x && q.y == p.y && !rest.isEmpty then directionTo p rest else some (toward p q)

def directionFrom (p : Spot) (others : List Spot) : Option Spot :=
  (directionTo p others).map fun d => ⟨-d.x, -d.y⟩

/-- The vertices of an outline that begins a part at `start` and is at `here`. -/
def verticesFrom (start here : Spot) : Outline → List Vertex
  | [] => []
  | stroke :: rest =>
    let start := match stroke with
      | .move p => p
      | _ => start
    let point := stroke.points.getLastD start
    let arrival := match stroke with
      | .move _ => none
      | .close => some (toward here start)
      | _ => directionFrom point (stroke.points.dropLast.reverse ++ [here])
    let departure := match rest.head? with
      | none | some (.move _) => none
      | some .close => some (toward point start)
      | some next => directionTo point next.points
    ⟨point, arrival, departure⟩ :: verticesFrom start point rest

def Outline.vertices (o : Outline) : List Vertex := verticesFrom .zero .zero o

def turn32 : Float32 := 6.2831855

def wholeAngle (a : Float32) : Float32 := if a < 0 then a + turn32 else if turn32 ≤ a then a - turn32 else a

def angleOf (v : Spot) : Float32 := wholeAngle (Float32.atan2 v.y v.x)

/-- The angle half-way between arriving and leaving, in degrees. -/
def Vertex.angle (v : Vertex) : Float32 :=
  let half := turn32 / 2
  let (first, last) := match v.arrival, v.departure with
    | some a, some b => (angleOf a, angleOf b)
    | some a, none => (angleOf a, angleOf a)
    | none, some b => (angleOf b, angleOf b)
    | none, none => (0, 0)
  let d := (last - first) * 0.5
  let angle := first + d
  wholeAngle (if half / 2 < d.abs then angle - half else angle) * (180 / half)

def opposite (degrees : Float32) : Float32 :=
  let half : Float32 := 180
  if degrees < half then degrees + half else degrees - half

inductive Orientation where
  | fixed (degrees : Float32)
  | along
  /-- Along the outline, but against it at the start. -/
  | alongReversed

def angleUnits : List (String × Float) :=
  [("", 1), ("deg", 1), ("grad", 0.9), ("rad", 180 / 3.141592653589793), ("turn", 360)]

def Orientation.parse : String → Orientation
  | "auto" => .along
  | "auto-start-reverse" => .alongReversed
  | s =>
    match takeNumber? s.toList with
    | some (x, unit) => .fixed (((angleUnits.lookup (.ofList unit)).map fun k => x * k).getD 0).toFloat32
    | none => .fixed 0

inductive MarkerPlace where
  | start | middle | stop
  deriving DecidableEq

def MarkerPlace.property : MarkerPlace → String
  | .start => "marker-start"
  | .middle => "marker-mid"
  | .stop => "marker-end"

def MarkerPlace.vertices (place : MarkerPlace) (o : Outline) : List Vertex :=
  match place with
  | .start => o.vertices.take 1
  | .middle =>
    ((o.zip o.vertices).drop 1).dropLast.filterMap fun (stroke, v) =>
      match stroke with
      | .close => none
      | _ => some v
  | .stop =>
    match o.getLast? with
    | some (.move _) | none => []
    | some _ => o.vertices.getLast?.toList

def turnBy (degrees : Float32) : Transform :=
  let a := degrees * (turn32 / 360)
  ⟨a.cos, -a.sin, 0, a.sin, a.cos, 0⟩

def Node.markerBox? (n : Node) (view : View) : Option Extent :=
  let three : Length := ⟨3, .pixel⟩
  (Extent.ofSize? (n.across view "refX") (n.down view "refY") (n.pixels view "markerWidth" .across three)
    (n.pixels view "markerHeight" .down three)).filter Extent.isSolid

def Node.strokeWidth? (n : Node) (view : View) : Option Float32 :=
  let l := ((n.inherited? "stroke-width").bind Length.parse?).getD ⟨1, .pixel⟩
  some (l.pixels .diagonal view n.letters) |>.filter isPositive

def Node.markerTransforms (marker n : Node) (view : View) (place : MarkerPlace) (o : Outline) :
    List Transform :=
  let factor? := if marker.property? "markerUnits" = some "userSpaceOnUse" then some 1
    else n.strokeWidth? view
  match marker.markerBox? view, factor? with
  | some box, some factor =>
    let (x, y) := match marker.viewBox? with
      | some shown => (marker.fit.transform shown (box.width * factor) (box.height * factor)).scales
      | none => (factor, factor)
    (place.vertices o).map fun v =>
      let degrees := match Orientation.parse ((marker.property? "orient").getD "") with
        | .fixed degrees => degrees
        | .along => v.angle
        | .alongReversed => if place = .start then opposite v.angle else v.angle
      let t := Transform.moving v.point.x v.point.y
      let t := if degrees == 0 then t else t.after (turnBy degrees)
      (t.after (.scaling x y)).after (.moving (-box.left) (-box.top))
  | _, _ => []

end DesignCompiler.Vector

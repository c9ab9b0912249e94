import DesignCompiler.Decimal.Binary
import DesignCompiler.Vector.Outline

namespace DesignCompiler.Vector

structure Arc where
  start : Point Float
  stop : Point Float
  radii : Point Float
  turn : Float
  large : Bool
  clockwise : Bool

structure CenteredArc where
  center : Point Float
  radii : Point Float
  turn : Float
  angle : Float
  sweep : Float

def fullTurn : Float := 2 * 3.141592653589793

def quarterTurn : Float := 1.5707963267948966

def turned (p : Point Float) (angle : Float) : Point Float :=
  ⟨p.x * angle.cos - p.y * angle.sin, p.x * angle.sin + p.y * angle.cos⟩

namespace Arc

/-- An arc with hardly any radius, or between equal ends, is drawn as a line. -/
def isStraight (a : Arc) : Bool :=
  a.radii.x.abs ≤ 1e-5 || a.radii.y.abs ≤ 1e-5 || (a.start.x == a.stop.x && a.start.y == a.stop.y)

/-- The arc about its center; radii that are too small to reach both ends grow. -/
def centered? (a : Arc) : Option CenteredArc :=
  if a.isStraight then none
  else
    let angle := Decimal.remainder a.turn fullTurn
    let (sin, cos) := (angle.sin, angle.cos)
    let halfX := (a.start.x - a.stop.x) * 0.5
    let halfY := (a.start.y - a.stop.y) * 0.5
    let px := cos * halfX + sin * halfY
    let py := -sin * halfX + cos * halfY
    let (rx, ry) := (a.radii.x.abs, a.radii.y.abs)
    let needed := px * px / (rx * rx) + py * py / (ry * ry)
    let factor := needed.sqrt
    let (rx, ry) := if 1 < needed then (rx * factor, ry * factor) else (rx, ry)
    let product := rx * ry
    let crossX := rx * py
    let crossY := ry * px
    let squares := crossX * crossX + crossY * crossY
    let side : Float := if a.large == a.clockwise then -1 else 1
    let k := side * ((product * product - squares) / squares).abs.sqrt
    let cx := k * crossX / ry
    let cy := -k * crossY / rx
    let first := Float.atan2 ((py - cy) / ry) ((px - cx) / rx)
    let last := Float.atan2 ((-py - cy) / ry) ((-px - cx) / rx)
    let sweep := Decimal.remainder (last - first) fullTurn
    some {
      center :=
        ⟨cos * cx - sin * cy + (a.start.x + a.stop.x) * 0.5,
          sin * cx + cos * cy + (a.start.y + a.stop.y) * 0.5⟩
      radii := ⟨rx, ry⟩
      turn := a.turn
      angle := first
      sweep :=
        if a.clockwise && sweep < 0 then sweep + fullTurn
        else if !a.clockwise && 0 < sweep then sweep - fullTurn
        else sweep }

end Arc

namespace CenteredArc

def sample (a : CenteredArc) (angle : Float) : Point Float :=
  turned ⟨a.radii.x * angle.cos, a.radii.y * angle.sin⟩ a.turn

def tolerance : Float := 0.1

def pieces (a : CenteredArc) : Float :=
  let radius := if a.radii.x < a.radii.y then a.radii.y else a.radii.x
  let around := (1.1163 * (radius / tolerance)).pow (1 / 6)
  let around := if around < 3.999999 then 3.999999 else around
  (around * a.sweep.abs * (1 / fullTurn)).ceil

def curvesFrom (a : CenteredArc) (step arm : Float) (angle : Float) (here : Point Float) :
    Nat → List (Point Float × Point Float × Point Float)
  | 0 => []
  | n + 1 =>
    let next := angle + step
    let there := a.sample next
    let leave := a.sample (angle + quarterTurn)
    let arrive := a.sample (next + quarterTurn)
    let place (p : Point Float) : Point Float := ⟨a.center.x + p.x, a.center.y + p.y⟩
    (place ⟨here.x + arm * leave.x, here.y + arm * leave.y⟩,
      place ⟨there.x - arm * arrive.x, there.y - arm * arrive.y⟩, place there)
      :: curvesFrom a step arm next there n

def curves (a : CenteredArc) : List (Point Float × Point Float × Point Float) :=
  let step := a.sweep / a.pieces
  let arm := 4 / 3 * (0.25 * step).abs.tan * (if a.sweep < 0 then -1 else 1)
  curvesFrom a step arm a.angle (a.sample a.angle) a.pieces.toUInt64.toNat

end CenteredArc

def spot (p : Point Float) : Spot := ⟨p.x.toFloat32, p.y.toFloat32⟩

def Pen.arc (pen : Pen) (a : Arc) : Pen :=
  match a.centered? with
  | some a => a.curves.foldl (fun pen (c, d, p) => pen.draw (.cubic (spot c) (spot d) (spot p))) pen
  | none => pen.draw (.line (spot a.stop))

end DesignCompiler.Vector

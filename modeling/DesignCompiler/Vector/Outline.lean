import DesignCompiler.Vector.Extent

namespace DesignCompiler.Vector

abbrev Spot := Point Float32

inductive Stroke where
  | move (p : Spot)
  | line (p : Spot)
  | quadratic (control p : Spot)
  | cubic (first second p : Spot)
  | close
  deriving Repr

namespace Stroke

def points : Stroke → List Spot
  | .move p | .line p => [p]
  | .quadratic c p => [c, p]
  | .cubic a b p => [a, b, p]
  | .close => []

def map (f : Spot → Spot) : Stroke → Stroke
  | .move p => .move (f p)
  | .line p => .line (f p)
  | .quadratic c p => .quadratic (f c) (f p)
  | .cubic a b p => .cubic (f a) (f b) (f p)
  | .close => .close

end Stroke

abbrev Outline := List Stroke

def fraction? (numerator denominator : Float32) : Option Float32 :=
  let (n, d) := if numerator < 0 then (-numerator, -denominator) else (numerator, denominator)
  if d == 0 || n == 0 || d ≤ n then none
  else
    let r := n / d
    if 0 < r && r < 1 then some r else none

def quadraticTurns (a b c : Float32) : List Float32 := (fraction? (a - b) (a - b - b + c)).toList

def unitZeros (a b c : Float32) : List Float32 :=
  if a == 0 then (fraction? (-c) b).toList
  else
    let square := b.toFloat * b.toFloat - 4 * a.toFloat * c.toFloat
    let root := square.sqrt.toFloat32
    if square < 0 || !root.isFinite then []
    else
      let q := if b < 0 then -(b - root) / 2 else -(b + root) / 2
      (fraction? q a).toList ++ (fraction? c q).toList

def cubicTurns (a b c d : Float32) : List Float32 :=
  unitZeros (d - a + 3 * (b - c)) (2 * (a - b - b + c)) (b - a)

def quadraticAt (a b c t : Float32) : Float32 :=
  let slope := b - a
  ((c - (b + b) + a) * t + (slope + slope)) * t + a

def cubicAt (a b c d t : Float32) : Float32 :=
  (((d + 3 * (b - c) - a) * t + 3 * (c - (b + b) + a)) * t + 3 * (b - a)) * t + a

namespace Stroke

/-- The points that decide how far a stroke from `start` reaches. -/
def reach (start : Spot) : Stroke → List Spot
  | .quadratic c p =>
    (quadraticTurns start.x c.x p.x ++ quadraticTurns start.y c.y p.y).map
      (fun t => ⟨quadraticAt start.x c.x p.x t, quadraticAt start.y c.y p.y t⟩) ++ [p]
  | .cubic a b p =>
    (cubicTurns start.x a.x b.x p.x ++ cubicTurns start.y a.y b.y p.y).map
      (fun t => ⟨cubicAt start.x a.x b.x p.x t, cubicAt start.y a.y b.y p.y t⟩) ++ [p]
  | stroke => stroke.points

end Stroke

namespace Outline

/-- The points that decide how far strokes reach that begin at `here`; a closed part ends at its
`start`. -/
def reachFrom (start here : Spot) : Outline → List Spot
  | [] => []
  | .move p :: rest => p :: reachFrom p p rest
  | .close :: rest => reachFrom start start rest
  | stroke :: rest => stroke.reach here ++ reachFrom start (stroke.points.getLastD here) rest

/-- The smallest rectangle around an outline, which has to have finite control points. -/
def extent? (o : Outline) : Option Extent := do
  let _ ← Extent.around? (o.flatMap Stroke.points)
  Extent.around? (reachFrom .zero .zero o)

end Outline

structure Pen where
  strokes : List Stroke := []
  start : Spot := .zero

namespace Pen

/-- A move right after another one replaces it. -/
def move (pen : Pen) (p : Spot) : Pen :=
  match pen.strokes with
  | .move _ :: rest => ⟨.move p :: rest, p⟩
  | strokes => ⟨.move p :: strokes, p⟩

/-- Draws on; a part that follows a closed one begins where that one began. -/
def draw (pen : Pen) (stroke : Stroke) : Pen :=
  match pen.strokes with
  | [] | .close :: _ => { pen with strokes := stroke :: .move pen.start :: pen.strokes }
  | strokes => { pen with strokes := stroke :: strokes }

def close (pen : Pen) : Pen :=
  match pen.strokes with
  | [] | .close :: _ => pen
  | strokes => { pen with strokes := .close :: strokes }

def here? (pen : Pen) : Option Spot := pen.strokes.findSome? fun s => s.points.getLast?

def outline? (pen : Pen) : Option Outline :=
  if pen.strokes.length < 2 then none else some pen.strokes.reverse

end Pen

end DesignCompiler.Vector

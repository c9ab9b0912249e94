import DesignCompiler.Geometry
import DesignCompiler.Vector.Length

namespace DesignCompiler.Vector

def joined (outer inner : Affine Float) : Affine Float where
  xx := outer.xx * inner.xx + outer.xy * inner.yx
  xy := outer.xx * inner.xy + outer.xy * inner.yy
  dx := outer.xx * inner.dx + outer.xy * inner.dy + outer.dx
  yx := outer.yx * inner.xx + outer.yy * inner.yx
  yy := outer.yx * inner.xy + outer.yy * inner.yy
  dy := outer.yx * inner.dx + outer.yy * inner.dy + outer.dy

abbrev Transform := Affine Float32

namespace Transform

def identity : Transform := ⟨1, 0, 0, 0, 1, 0⟩

def isIdentity (t : Transform) : Bool := t == identity

def moving (dx dy : Float32) : Transform := { identity with dx, dy }

def scaling (x y : Float32) : Transform := { identity with xx := x, yy := y }

def hasSkew (t : Transform) : Bool := t.xy != 0 || t.yx != 0

def hasScale (t : Transform) : Bool := t.xx != 1 || t.yy != 1

/-- A sum of two products, rounded once. -/
def productSum (a b c d : Float32) : Float32 :=
  (a.toFloat * b.toFloat + c.toFloat * d.toFloat).toFloat32

def after (outer inner : Transform) : Transform :=
  if outer.isIdentity then inner
  else if inner.isIdentity then outer
  else if !outer.hasSkew && !inner.hasSkew then
    { xx := outer.xx * inner.xx, xy := 0, dx := outer.xx * inner.dx + outer.dx
      yx := 0, yy := outer.yy * inner.yy, dy := outer.yy * inner.dy + outer.dy }
  else
    { xx := productSum outer.xx inner.xx outer.xy inner.yx
      xy := productSum outer.xx inner.xy outer.xy inner.yy
      dx := productSum outer.xx inner.dx outer.xy inner.dy + outer.dx
      yx := productSum outer.yx inner.xx outer.yy inner.yx
      yy := productSum outer.yx inner.xy outer.yy inner.yy
      dy := productSum outer.yx inner.dx outer.yy inner.dy + outer.dy }

def apply (t : Transform) (p : Point Float32) : Point Float32 :=
  if t.hasSkew then
    ⟨p.x * t.xx + p.y * t.xy + t.dx, p.x * t.yx + p.y * t.yy + t.dy⟩
  else if t.hasScale then ⟨p.x * t.xx + t.dx, p.y * t.yy + t.dy⟩
  else ⟨p.x + t.dx, p.y + t.dy⟩

def smallestScale : Float32 := .ofBits 0x34000000

def scales (t : Transform) : Float32 × Float32 :=
  ((t.xx * t.xx + t.xy * t.xy).sqrt, (t.yx * t.yx + t.yy * t.yy).sqrt)

def isUsable (t : Transform) : Bool :=
  [t.xx, t.xy, t.dx, t.yx, t.yy, t.dy].all Float32.isFinite
    && smallestScale < t.scales.1 && smallestScale < t.scales.2

end Transform

def radians (degrees : Float) : Float := degrees * (3.141592653589793 / 180)

def rotation (degrees : Float) : Affine Float :=
  let (sin, cos) := ((radians degrees).sin, (radians degrees).cos)
  ⟨cos, -sin, 0, sin, cos, 0⟩

def Scan.numberOr (default : Float) : Scan Float := do
  spaces
  if (← next?) = some ')' then return default else listNumber

/-- The arguments of a step, from which the step follows; a turn about a point is three steps. -/
def Scan.stepArguments (name : String) : Scan (List (Affine Float)) := do
  match name with
  | "matrix" =>
    let xx ← listNumber
    let yx ← listNumber
    let xy ← listNumber
    let yy ← listNumber
    let dx ← listNumber
    let dy ← listNumber
    return [⟨xx, xy, dx, yx, yy, dy⟩]
  | "translate" =>
    let dx ← listNumber
    return [⟨1, 0, dx, 0, 1, ← numberOr 0⟩]
  | "scale" =>
    let x ← listNumber
    return [⟨x, 0, 0, 0, ← numberOr x, 0⟩]
  | "rotate" =>
    let turn := rotation (← listNumber)
    spaces
    if (← next?) = some ')' then return [turn]
    else
      let x ← listNumber
      let y ← listNumber
      return [⟨1, 0, x, 0, 1, y⟩, turn, ⟨1, 0, -x, 0, 1, -y⟩]
  | "skewX" => return [⟨1, (radians (← listNumber)).tan, 0, 0, 1, 0⟩]
  | "skewY" => return [⟨1, 0, 0, (radians (← listNumber)).tan, 1, 0⟩]
  | _ => failure

def Scan.step : Scan (List (Affine Float)) := do
  let name ← word
  spaces
  need '('
  let steps ← stepArguments name
  spaces
  need ')'
  spaces
  optional ','
  spaces
  return steps

def Transform.parse? (s : String) : Option Transform :=
  (Scan.all? (Scan.repeated Scan.step (s.length + 1)) s).map fun steps =>
    let t := steps.flatten.foldl joined ⟨1, 0, 0, 0, 1, 0⟩
    ⟨t.xx.toFloat32, t.xy.toFloat32, t.dx.toFloat32, t.yx.toFloat32, t.yy.toFloat32, t.dy.toFloat32⟩

inductive Place where
  | left | right | top | bottom | center
  deriving DecidableEq

def Place.names : List (String × Place) :=
  [("left", .left), ("right", .right), ("top", .top), ("bottom", .bottom), ("center", .center)]

def Scan.lengthOrPlace? : Scan (Option (Length ⊕ Place)) := fun s =>
  match Scan.length.run s with
  | some (l, rest) => some (some (.inl l), rest)
  | none =>
    match Place.names.find? fun (name, _) => name.toList.isPrefixOf s with
    | some (name, place) => some (some (.inr place), s.drop name.length)
    | none => some (none, s)

def part (percent : Float) : Length := ⟨percent, .percent⟩

def Place.across? : Place → Option Length
  | .left => some (part 0)
  | .right => some (part 100)
  | .center => some (part 50)
  | .top | .bottom => none

def Place.down? : Place → Option Length
  | .top => some (part 0)
  | .bottom => some (part 100)
  | .center => some (part 50)
  | .left | .right => none

/-- The distances across and down of one or two parts; names of places may come in either order. -/
def originOf? : Length ⊕ Place → Option (Length ⊕ Place) → Option (Length × Length)
  | .inl x, none => some (x, part 50)
  | .inr p, none => some (p.across?.getD (part 50), p.down?.getD (part 50))
  | .inl x, some (.inl y) => some (x, y)
  | .inl x, some (.inr p) => p.down?.map fun y => (x, y)
  | .inr p, some (.inl y) => p.across?.map fun x => (x, y)
  | .inr p, some (.inr q) =>
    match p.across?, q.down? with
    | some x, some y => some (x, y)
    | _, _ => return (← q.across?, ← p.down?)

def Scan.anotherPart {α : Type} (step : Scan α) : Scan (Option α) := do
  if (← get).isEmpty then return none
  spaces
  optional ','
  return some (← step)

/-- The origin of a transform; a third length, which is a depth, has no effect. -/
def origin? : String → Option (Length × Length) := Scan.all? do
  match (← Scan.lengthOrPlace?) with
  | none => failure
  | some first =>
    let second ← Scan.anotherPart Scan.lengthOrPlace?
    let _ ← Scan.anotherPart Scan.length
    Scan.spaces
    match second with
    | some none => failure
    | some (some second) => StateT.lift (originOf? first (some second))
    | none => StateT.lift (originOf? first none)

def Transform.about (t : Transform) (dx dy : Float32) : Transform :=
  ((moving dx dy).after t).after (moving (-dx) (-dy))

end DesignCompiler.Vector

import DesignCompiler.Vector.Transform

namespace DesignCompiler.Vector

structure Extent where
  left : Float32
  top : Float32
  right : Float32
  bottom : Float32
  deriving Repr

namespace Extent

def isTooWide (low high : Float32) : Bool :=
  !(high.toFloat - low.toFloat).toFloat32.isFinite

def ofEdges? (left top right bottom : Float32) : Option Extent :=
  if [left, top, right, bottom].all Float32.isFinite && left ≤ right && top ≤ bottom
      && !isTooWide left right && !isTooWide top bottom
  then some ⟨left, top, right, bottom⟩
  else none

def ofSize? (x y width height : Float32) : Option Extent := ofEdges? x y (width + x) (height + y)

def width (e : Extent) : Float32 := e.right - e.left

def height (e : Extent) : Float32 := e.bottom - e.top

def isSolid (e : Extent) : Bool := e.left < e.right && e.top < e.bottom

def minimum (a b : Float32) : Float32 := if b < a then b else a

def maximum (a b : Float32) : Float32 := if a < b then b else a

def union (a b : Extent) : Extent :=
  ⟨minimum a.left b.left, minimum a.top b.top, maximum a.right b.right, maximum a.bottom b.bottom⟩

def ofPoint (p : Point Float32) : Extent := ⟨p.x, p.y, p.x, p.y⟩

def around? : List (Point Float32) → Option Extent
  | [] => none
  | p :: rest =>
    if (p :: rest).all fun q => q.x.isFinite && q.y.isFinite then
      let e := rest.foldl (fun e q => e.union (ofPoint q)) (ofPoint p)
      ofEdges? e.left e.top e.right e.bottom
    else none

def map? (t : Transform) (e : Extent) : Option Extent :=
  if t.isIdentity then some e
  else
    let corners := [⟨e.left, e.top⟩, ⟨e.right, e.top⟩, ⟨e.right, e.bottom⟩, ⟨e.left, e.bottom⟩]
    around? (corners.map t.apply)

end Extent

end DesignCompiler.Vector

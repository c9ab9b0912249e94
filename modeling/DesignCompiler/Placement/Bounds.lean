import DesignCompiler.Scene.Basic

namespace DesignCompiler.Placement

variable {α : Type}

/-- The box of a node before rotation: its centre is that of the absolute box, which encloses the
rotated shape. -/
def unrotated [Add α] [Sub α] [Div α] [OfNat α 2] (absolute : Box α) (size : Point α) : Box α where
  x := absolute.center.x - size.x / 2
  y := absolute.center.y - size.y / 2
  width := size.x
  height := size.y

structure Gaps (α : Type) where
  left : α
  right : α
  top : α
  bottom : α
  width : α
  height : α
  deriving Repr, BEq

def Gaps.parentWidth [Add α] (g : Gaps α) : α := g.left + g.width + g.right

def Gaps.parentHeight [Add α] (g : Gaps α) : α := g.top + g.height + g.bottom

/-- The gaps of a node. Below an earlier item of the same stack, the gap at the top begins at that
item's lower edge. -/
def gaps [Add α] [Sub α] (node parent : Box α) (previous : Option (Box α)) : Gaps α where
  left := node.x - parent.x
  right := parent.right - node.right
  top :=
    match previous with
    | none => node.y - parent.y
    | some p => node.y - p.bottom
  bottom := parent.bottom - node.bottom
  width := node.width
  height := node.height

def boxOf (attrs : NodeAttributes) : Box Float :=
  unrotated (attrs.absoluteBox.getD .zero) attrs.unturnedSize

def rotation (m : Affine Float) : Float :=
  Float.atan2 (-m.yx) m.xx * (180 / 3.14159265358979323846264338327950288)

def angleOf (attrs : NodeAttributes) : Float := (attrs.relativeTransform.map rotation).getD 0

structure Bounds extends Gaps Float where
  angle : Float
  deriving Repr, BEq

/-- The bounds of a node in its parent, below an earlier item of its stack if there is one; a node
without a parent has none. -/
def bounds? (node : NodeAttributes) (parent previous : Option NodeAttributes) : Option Bounds :=
  parent.map fun p => ⟨gaps (boxOf node) (boxOf p) (previous.map boxOf), angleOf node⟩

end DesignCompiler.Placement

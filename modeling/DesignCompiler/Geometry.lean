namespace DesignCompiler

structure Point (α : Type) where
  x : α
  y : α
  deriving Repr, BEq, DecidableEq, Inhabited

structure Box (α : Type) where
  x : α
  y : α
  width : α
  height : α
  deriving Repr, BEq, DecidableEq, Inhabited

/-- The rows of an affine map of the plane; the last column moves the plane. -/
structure Affine (α : Type) where
  xx : α
  xy : α
  dx : α
  yx : α
  yy : α
  dy : α
  deriving Repr, BEq, DecidableEq, Inhabited

variable {α : Type}

def Point.zero [OfNat α 0] : Point α := ⟨0, 0⟩

def Box.zero [OfNat α 0] : Box α := ⟨0, 0, 0, 0⟩

def Box.right [Add α] (b : Box α) : α := b.x + b.width

def Box.bottom [Add α] (b : Box α) : α := b.y + b.height

def Box.size (b : Box α) : Point α := ⟨b.width, b.height⟩

def Box.center [Add α] [Div α] [OfNat α 2] (b : Box α) : Point α :=
  ⟨b.x + b.width / 2, b.y + b.height / 2⟩

end DesignCompiler

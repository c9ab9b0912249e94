import DesignCompiler.Assets.Resources
import DesignCompiler.Tree

namespace DesignCompiler

def note (item : String) (items : List String) : List String :=
  if item ∈ items then items else items ++ [item]

/-- A normalized scene in the making. Each list holds an item once, in the order of the first use. -/
structure Draft where
  tree : NodeTree := {}
  vectors : List String := []
  images : List String := []
  masks : List String := []
  descriptions : List String := []
  deriving Inhabited

/-- The constraints that all of some children share, if there are any and all are shapes. -/
def sharedConstraints? (children : List SceneNode) : Option Constraints :=
  match children with
  | [] => none
  | first :: rest =>
    let pair := first.attrs.constraints.getD {}
    let shares (c : SceneNode) : Bool :=
      c.attrs.kind.isVectorFamily && c.attrs.constraints.getD {} = pair
    if first.attrs.kind.isVectorFamily && rest.all shares then some pair else none

def visibleChildren (children : List SceneNode) : List SceneNode :=
  children.filter (·.attrs.visible)

def normalForm (attrs : NodeAttributes) (children : List SceneNode) : NodeType × Constraints :=
  let own := attrs.constraints.getD {}
  let shared := if attrs.isComponentRoot then none else sharedConstraints? (visibleChildren children)
  match shared with
  | some pair => (.vector, pair)
  | none =>
    if attrs.requiresRender || attrs.kind.isVectorFamily then (.vector, own) else (attrs.kind, own)

def imageRefs (fills : List Paint) : List String :=
  (fills.filter (·.kind = .image)).filterMap (·.imageRef)

def descriptionIds (attrs : NodeAttributes) : List String :=
  (if attrs.isComponentRoot || attrs.kind = .component then [attrs.id] else [])
    ++ attrs.componentId.toList

namespace Draft

def add (o : Options) (parent : Option Nat) (attrs : NodeAttributes) (kind : NodeType)
    (constraints : Constraints) (d : Draft) : Draft where
  tree := d.tree.push attrs kind constraints (.parse o.delimiters attrs.name) parent
  vectors := if kind = .vector then note attrs.id d.vectors else d.vectors
  images := (imageRefs attrs.fills).foldl (fun refs ref => note ref refs) d.images
  masks := d.masks
  descriptions := (descriptionIds attrs).foldl (fun ids id => note id ids) d.descriptions

/-- Links a mask to the sibling before it, if it is not the first. -/
def linkMask (mask : Nat) (id : String) (d : Draft) : Draft :=
  match d.tree.previousSibling? mask with
  | some target => { d with tree := d.tree.setMask target mask, masks := note id d.masks }
  | none => d

mutual

/-- Adds a node and, unless it is a vector, its visible children. -/
def addNode (o : Options) (parent : Option Nat) : SceneNode → Draft → Draft
  | ⟨attrs, children⟩, d =>
    let (kind, constraints) := normalForm attrs children
    let index := d.tree.size
    let d := d.add o parent attrs kind constraints
    if kind = .vector then d else addChildren o index children d

def addChildren (o : Options) (parent : Nat) : List SceneNode → Draft → Draft
  | [], d => d
  | child :: rest, d =>
    if child.attrs.visible then
      let index := d.tree.size
      let d := addNode o (some parent) child d
      addChildren o parent rest (if child.attrs.isMask then d.linkMask index child.attrs.id else d)
    else addChildren o parent rest d

end

theorem size_linkMask (mask : Nat) (id : String) (d : Draft) :
    (d.linkMask mask id).tree.size = d.tree.size := by
  unfold linkMask
  split
  · exact NodeTree.size_setMask ..
  · rfl

theorem ordered_linkMask {d : Draft} (h : d.tree.Ordered) (mask : Nat) (id : String) :
    (d.linkMask mask id).tree.Ordered := by
  unfold linkMask
  split
  · exact h.setMask _ _
  · exact h

mutual

theorem ordered_addNode (o : Options) (parent : Option Nat) (node : SceneNode) (d : Draft)
    (h : d.tree.Ordered) (hp : ∀ p ∈ parent, p < d.tree.size) :
    (addNode o parent node d).tree.Ordered ∧ d.tree.size < (addNode o parent node d).tree.size := by
  match node with
  | ⟨attrs, children⟩ =>
    have ho : (d.add o parent attrs (normalForm attrs children).1
        (normalForm attrs children).2).tree.Ordered := h.push _ _ _ _ hp
    have hs : (d.add o parent attrs (normalForm attrs children).1
        (normalForm attrs children).2).tree.size = d.tree.size + 1 := NodeTree.size_push ..
    rw [addNode]
    dsimp only
    split
    · exact ⟨ho, by omega⟩
    · have hc := ordered_addChildren o d.tree.size children _ ho (by omega)
      exact ⟨hc.1, by have := hc.2; omega⟩

theorem ordered_addChildren (o : Options) (parent : Nat) (children : List SceneNode) (d : Draft)
    (h : d.tree.Ordered) (hp : parent < d.tree.size) :
    (addChildren o parent children d).tree.Ordered
      ∧ d.tree.size ≤ (addChildren o parent children d).tree.size := by
  match children with
  | [] => exact ⟨h, Nat.le_refl _⟩
  | child :: rest =>
    rw [addChildren]
    dsimp only
    split
    · have hn := ordered_addNode o (some parent) child d h (by simpa using hp)
      split
      · have hr := ordered_addChildren o parent rest
          ((addNode o (some parent) child d).linkMask d.tree.size child.attrs.id)
          (ordered_linkMask hn.1 _ _) (by rw [size_linkMask]; omega)
        rw [size_linkMask] at hr
        exact ⟨hr.1, by omega⟩
      · have hr := ordered_addChildren o parent rest (addNode o (some parent) child d) hn.1 (by omega)
        exact ⟨hr.1, by omega⟩
    · exact ordered_addChildren o parent rest d h hp

end

def addComponents (o : Options) : List SceneNode → Draft → Draft
  | [], d => d
  | node :: rest, d =>
    addComponents o rest
      (if node.attrs.visible && node.attrs.isComponentRoot then addNode o none node d else d)

theorem ordered_addComponents (o : Options) (nodes : List SceneNode) (d : Draft)
    (h : d.tree.Ordered) : (addComponents o nodes d).tree.Ordered := by
  induction nodes generalizing d with
  | nil => exact h
  | cons node rest ih =>
    rw [addComponents]
    apply ih
    split
    · exact (ordered_addNode o none node d h (by simp)).1
    · exact h

end Draft

structure NormalizedScene extends Draft where
  ordered : toDraft.tree.Ordered

namespace NormalizedScene

/-- The visible components of a canvas as a forest, without what is hidden, and all the assets that drawing them
needs. Shapes, nodes that have to be rendered, and nodes that hold nothing but shapes become vectors, whose children
are not kept. -/
def ofCanvas (o : Options) (canvas : SceneNode) : NormalizedScene where
  toDraft := Draft.addComponents o canvas.children {}
  ordered := Draft.ordered_addComponents o _ _ fun i c hc => by
    simp [NodeTree.children, NodeTree.get?] at hc

def forest (s : NormalizedScene) : Forest := ⟨s.tree, s.ordered⟩

def request (s : NormalizedScene) : Assets.Request := ⟨s.vectors, s.images, s.masks⟩

end NormalizedScene

end DesignCompiler

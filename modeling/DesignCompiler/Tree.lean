import DesignCompiler.Params
import DesignCompiler.Scene.Basic

namespace DesignCompiler

structure Node where
  index : Nat
  attrs : NodeAttributes
  kind : NodeType
  constraints : Constraints
  params : Params
  parent : Option Nat
  children : List Nat := []
  mask : Option Nat := none
  masked : Option Nat := none
  deriving Inhabited, BEq

def Node.absoluteBox (n : Node) : Box Float := n.attrs.absoluteBox.getD .zero

structure NodeTree where
  nodes : Array Node := #[]
  roots : List Nat := []
  deriving Inhabited, BEq

namespace NodeTree

variable (t : NodeTree)

def size : Nat := t.nodes.size

def get? (i : Nat) : Option Node := t.nodes[i]?

def push (attrs : NodeAttributes) (kind : NodeType) (constraints : Constraints) (params : Params)
    (parent : Option Nat) : NodeTree :=
  let node : Node := { index := t.size, attrs, kind, constraints, params, parent }
  let nodes := t.nodes.push node
  match parent with
  | some p => { t with nodes := nodes.modify p fun n => { n with children := n.children ++ [t.size] } }
  | none => { nodes := nodes, roots := t.roots ++ [t.size] }

/-- The last node with a scene id. -/
def find? (id : String) : Option Nat := (t.nodes.toList.reverse.find? (·.attrs.id = id)).map (·.index)

def children (i : Nat) : List Nat := ((t.get? i).map (·.children)).getD []

def parent? (i : Nat) : Option Nat := (t.get? i).bind (·.parent)

def before? (x : Nat) : List Nat → Option Nat
  | a :: b :: rest => if a = x then none else if b = x then some a else before? x (b :: rest)
  | _ => none

def previousSibling? (i : Nat) : Option Nat := (t.parent? i).bind fun p => before? i (t.children p)

/-- Links `mask` as the mask of `target`, if both are there. -/
def setMask (target mask : Nat) : NodeTree :=
  if target < t.size ∧ mask < t.size then
    { t with
      nodes := (t.nodes.modify target fun n => { n with mask := some mask }).modify mask
        fun n => { n with masked := some target } }
  else t

def isConsumedMask (i : Nat) : Bool := (t.get? i).any (·.masked.isSome)

theorem lt_size_of_mem_children {t : NodeTree} {i c : Nat} (h : c ∈ t.children i) : i < t.size := by
  by_cases hi : i < t.size
  · exact hi
  · have : t.nodes[i]? = none := Array.getElem?_eq_none (by simpa [size] using hi)
    simp [children, get?, this] at h

def Ordered (t : NodeTree) : Prop := ∀ i, ∀ c ∈ t.children i, i < c

theorem size_push (t : NodeTree) (attrs : NodeAttributes) (kind : NodeType)
    (constraints : Constraints) (params : Params) (parent : Option Nat) :
    (t.push attrs kind constraints params parent).size = t.size + 1 := by
  cases parent <;> simp [push, size]

theorem children_push (t : NodeTree) (attrs : NodeAttributes) (kind : NodeType)
    (constraints : Constraints) (params : Params) (parent : Option Nat) (i : Nat) :
    (t.push attrs kind constraints params parent).children i =
      if parent = some i ∧ i ≤ t.size then t.children i ++ [t.size] else t.children i := by
  cases parent with
  | none => simp [push, children, get?, Array.getElem?_push, size]; grind
  | some p => simp [push, children, get?, Array.getElem?_modify, Array.getElem?_push, size]; grind

theorem Ordered.push {t : NodeTree} (h : t.Ordered) (attrs : NodeAttributes) (kind : NodeType)
    (constraints : Constraints) (params : Params) {parent : Option Nat}
    (hp : ∀ p ∈ parent, p < t.size) : (t.push attrs kind constraints params parent).Ordered := by
  intro i c hc
  rw [children_push] at hc
  split at hc
  · next hi =>
    rcases List.mem_append.1 hc with hc | hc
    · exact h i c hc
    · have := hp i hi.1
      simp at hc
      omega
  · exact h i c hc

theorem size_setMask (t : NodeTree) (target mask : Nat) : (t.setMask target mask).size = t.size := by
  unfold setMask
  split <;> simp [size]

theorem children_setMask (t : NodeTree) (target mask i : Nat) :
    (t.setMask target mask).children i = t.children i := by
  unfold setMask
  split
  · simp only [children, get?, Array.getElem?_modify]
    cases t.nodes[i]? <;> grind
  · rfl

theorem Ordered.setMask {t : NodeTree} (h : t.Ordered) (target mask : Nat) :
    (t.setMask target mask).Ordered := by
  intro i c hc
  rw [children_setMask] at hc
  exact h i c hc

end NodeTree

/-- A tree in which the children of each node come after it, so that a walk down it ends. -/
structure Forest extends NodeTree where
  ordered : toNodeTree.Ordered

end DesignCompiler

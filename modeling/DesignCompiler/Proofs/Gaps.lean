import Mathlib.Algebra.BigOperators.Group.List.Basic
import Mathlib.Algebra.Field.Rat
import Mathlib.Tactic.Ring
import DesignCompiler.Placement.Bounds

namespace DesignCompiler.Placement

variable {α : Type}

/-- What is known of a node's box before rotation: the box around the rotated shape, and the size. -/
structure Frame (α : Type) where
  absolute : Option (Box α)
  size : Option (Point α)

def frameOf (attrs : NodeAttributes) : Frame Float := ⟨attrs.absoluteBox, attrs.size⟩

namespace Frame

def unturnedSize [OfNat α 0] (f : Frame α) : Point α := f.size.getD ((f.absolute.map Box.size).getD .zero)

section Boxes

variable [Add α] [Sub α] [Div α] [OfNat α 0] [OfNat α 2]

def box (f : Frame α) : Box α := unrotated (f.absolute.getD .zero) f.unturnedSize

def gaps (node parent : Frame α) (previous : Option (Frame α)) : Gaps α :=
  Placement.gaps node.box parent.box (previous.map box)

def stackGaps (parent : Frame α) (previous : Option (Frame α)) (nodes : List (Frame α)) : List (Gaps α) :=
  List.zipWith (fun previous node => node.gaps parent previous) (previous :: nodes.map some) nodes

def flowStart (parent : Frame α) : Option (Frame α) → α
  | none => parent.box.y
  | some previous => previous.box.bottom

end Boxes

/-- The nodes of a document are placed by their frames alone, apart from the angle. -/
theorem bounds?_eq (node parent : NodeAttributes) (previous : Option NodeAttributes) :
    bounds? node (some parent) previous =
      some ⟨(frameOf node).gaps (frameOf parent) (previous.map frameOf), angleOf node⟩ := by
  rw [gaps, Option.map_map]
  rfl

section Exact

variable [Field α] (node parent : Frame α) (previous : Option (Frame α)) (nodes : List (Frame α))

theorem center_box : node.box.center = (node.absolute.getD .zero).center := by
  simp only [box, unrotated, Box.center, sub_add_cancel]

theorem top_gaps : (node.gaps parent previous).top = node.box.y - flowStart parent previous := by
  cases previous <;> rfl

theorem parentWidth_gaps : (node.gaps parent previous).parentWidth = parent.unturnedSize.x := by
  change node.box.x - parent.box.x + node.box.width + (parent.box.right - node.box.right) = parent.box.width
  rw [Box.right, Box.right]
  ring

theorem parentHeight_gaps : (node.gaps parent none).parentHeight = parent.unturnedSize.y := by
  change node.box.y - parent.box.y + node.box.height + (parent.box.bottom - node.box.bottom) =
    parent.box.height
  rw [Box.bottom, Box.bottom]
  ring

theorem stackGaps_cons : stackGaps parent previous (node :: nodes) =
    node.gaps parent previous :: stackGaps parent (some node) nodes := rfl

theorem flowStart_some : flowStart parent (some node) =
    flowStart parent previous + ((node.gaps parent previous).top + (node.gaps parent previous).height) := by
  have hheight : (node.gaps parent previous).height = node.box.height := rfl
  rw [top_gaps, hheight, flowStart, Box.bottom]
  ring

variable {nodes node}

theorem exists_flow_add_top {i : Nat} (h : nodes[i]? = some node) :
    ∃ g, (stackGaps parent previous nodes)[i]? = some g ∧
      (((stackGaps parent previous nodes).take i).map fun b => b.top + b.height).sum + g.top =
        node.box.y - flowStart parent previous := by
  induction nodes generalizing previous i with
  | nil => cases h
  | cons first rest ih =>
      rw [stackGaps_cons]
      cases i with
      | zero =>
          obtain rfl := Option.some.inj h
          refine ⟨_, rfl, ?_⟩
          rw [List.take_zero, List.map_nil, List.sum_nil, zero_add, top_gaps]
      | succ i =>
          obtain ⟨g, hg, hrest⟩ := ih (some first) h
          refine ⟨g, hg, ?_⟩
          rw [List.take_succ_cons, List.map_cons, List.sum_cons, add_assoc, hrest,
            flowStart_some first parent previous]
          ring

/-- The margins of a stack do not add up: what the items before an item take of the flow, with the margin above the
item, leads to that item's own upper edge. The gaps and the size of a node make up the width of its parent, and, at
the head of a stack, the height. Floating-point numbers round; this is over a field, for the arithmetic that places
the nodes of a document. -/
theorem stack_margins_exact (parent : Frame α) :
    (∀ (nodes : List (Frame α)) (i : Nat) (node : Frame α), nodes[i]? = some node →
      ∃ g, (stackGaps parent none nodes)[i]? = some g ∧
        (((stackGaps parent none nodes).take i).map fun b => b.top + b.height).sum + g.top =
          node.box.y - parent.box.y) ∧
    (∀ (node : Frame α) previous, (node.gaps parent previous).parentWidth = parent.unturnedSize.x) ∧
    (∀ node : Frame α, (node.gaps parent none).parentHeight = parent.unturnedSize.y) ∧
    (∀ node : Frame α, node.box.center = (node.absolute.getD .zero).center ∧
      node.box.size = node.unturnedSize) ∧
    ∀ (node p : NodeAttributes) (previous : Option NodeAttributes),
      bounds? node (some p) previous =
        some ⟨(frameOf node).gaps (frameOf p) (previous.map frameOf), angleOf node⟩ :=
  ⟨fun _ _ _ h => exists_flow_add_top parent none h,
    fun node previous => parentWidth_gaps node parent previous, fun node => parentHeight_gaps node parent,
    fun node => ⟨center_box node, rfl⟩, bounds?_eq⟩

end Exact

/-- A bar that is turned by a quarter, a node without a box and one without a size: the last begins 130
below the upper edge of its parent. -/
theorem stack_margins_exact_turned :
    let parent : Frame ℚ := ⟨some ⟨10, 20, 300, 200⟩, none⟩
    let nodes : List (Frame ℚ) :=
      [⟨some ⟨10, 40, 20, 100⟩, some ⟨100, 20⟩⟩, ⟨none, some ⟨8, 6⟩⟩, ⟨some ⟨0, 150, 30, 30⟩, none⟩]
    ∃ g, (stackGaps parent none nodes)[2]? = some g ∧ g.top = 147 ∧
      (((stackGaps parent none nodes).take 2).map fun b => b.top + b.height).sum + g.top = 130 := by
  intro parent nodes
  have hnode : nodes[2]? = some ⟨some ⟨0, 150, 30, 30⟩, none⟩ := rfl
  obtain ⟨g, hg, hflow⟩ := (stack_margins_exact parent).1 nodes 2 _ hnode
  refine ⟨g, hg, ?_, hflow.trans ?_⟩
  · obtain rfl := Option.some.inj hg
    decide +kernel
  · decide +kernel

end Frame

end DesignCompiler.Placement

import Mathlib.Logic.Relation
import DesignCompiler.Tree.Normalize

namespace DesignCompiler

open Relation

namespace SceneNode

def HasChild (node child : SceneNode) : Prop := child ∈ node.children

mutual

def pruned : SceneNode → SceneNode
  | ⟨attrs, children⟩ => ⟨attrs, prunedAll children⟩

def prunedAll : List SceneNode → List SceneNode
  | [] => []
  | node :: rest => if node.attrs.visible then pruned node :: prunedAll rest else prunedAll rest

end

def prunedCanvas (canvas : SceneNode) : SceneNode :=
  { canvas with children := (prunedAll canvas.children).filter (·.attrs.isComponentRoot) }

theorem attrs_pruned (node : SceneNode) : node.pruned.attrs = node.attrs := by
  cases node
  rw [pruned]

theorem children_pruned (node : SceneNode) : node.pruned.children = prunedAll node.children := by
  cases node
  rw [pruned]

theorem prunedAll_eq (nodes : List SceneNode) : prunedAll nodes = (visibleChildren nodes).map pruned := by
  induction nodes with
  | nil => simp [prunedAll, visibleChildren]
  | cons node rest ih =>
      by_cases h : node.attrs.visible <;> simp_all [prunedAll, visibleChildren]

theorem visible_of_mem_prunedAll {nodes : List SceneNode} {node : SceneNode} (h : node ∈ prunedAll nodes) :
    node.attrs.visible ∧ ∃ layer ∈ nodes, node = layer.pruned := by
  rw [prunedAll_eq, List.mem_map] at h
  obtain ⟨layer, hlayer, rfl⟩ := h
  obtain ⟨hmem, hvisible⟩ := List.mem_filter.1 hlayer
  exact ⟨by rwa [attrs_pruned], layer, hmem, rfl⟩

theorem visible_of_prunedCanvas {canvas node : SceneNode} (h : TransGen HasChild canvas.prunedCanvas node) :
    node.attrs.visible := by
  -- Each layer on the way down is a pruned one.
  suffices node.attrs.visible ∧ ∃ layer : SceneNode, node = layer.pruned from this.1
  induction h with
  | single hc =>
      obtain ⟨hvisible, layer, -, hpruned⟩ := visible_of_mem_prunedAll (List.mem_filter.1 hc).1
      exact ⟨hvisible, layer, hpruned⟩
  | tail _ hc ih =>
      obtain ⟨-, layer, rfl⟩ := ih
      rw [HasChild, children_pruned] at hc
      obtain ⟨hvisible, layer', -, hpruned⟩ := visible_of_mem_prunedAll hc
      exact ⟨hvisible, layer', hpruned⟩

end SceneNode

theorem visibleChildren_prunedAll (nodes : List SceneNode) :
    visibleChildren (SceneNode.prunedAll nodes) = SceneNode.prunedAll nodes :=
  List.filter_eq_self.2 fun _ h => (SceneNode.visible_of_mem_prunedAll h).1

theorem sharedConstraints?_map_pruned (nodes : List SceneNode) :
    sharedConstraints? (nodes.map SceneNode.pruned) = sharedConstraints? nodes := by
  cases nodes with
  | nil => rfl
  | cons first rest => simp [sharedConstraints?, SceneNode.attrs_pruned, List.all_map, Function.comp_def]

theorem normalForm_prunedAll (attrs : NodeAttributes) (children : List SceneNode) :
    normalForm attrs (SceneNode.prunedAll children) = normalForm attrs children := by
  rw [normalForm, normalForm, visibleChildren_prunedAll, SceneNode.prunedAll_eq,
    sharedConstraints?_map_pruned]

namespace Draft

mutual

theorem addNode_pruned (o : Options) (parent : Option Nat) (node : SceneNode) (d : Draft) :
    addNode o parent node.pruned d = addNode o parent node d := by
  match node with
  | ⟨attrs, children⟩ =>
    rw [SceneNode.pruned, addNode, addNode, normalForm_prunedAll]
    dsimp only
    split
    · rfl
    · exact addChildren_prunedAll o d.tree.size children _

theorem addChildren_prunedAll (o : Options) (parent : Nat) (children : List SceneNode) (d : Draft) :
    addChildren o parent (SceneNode.prunedAll children) d = addChildren o parent children d := by
  match children with
  | [] => rw [SceneNode.prunedAll]
  | child :: rest =>
    by_cases h : child.attrs.visible
    · have hnode := addNode_pruned o (some parent) child d
      rw [SceneNode.prunedAll, if_pos h, addChildren, addChildren, SceneNode.attrs_pruned, if_pos h,
        if_pos h, hnode]
      exact addChildren_prunedAll o parent rest _
    · rw [SceneNode.prunedAll, if_neg h, addChildren, if_neg h]
      exact addChildren_prunedAll o parent rest d

end

theorem addComponents_pruned (o : Options) (nodes : List SceneNode) (d : Draft) :
    addComponents o ((SceneNode.prunedAll nodes).filter (·.attrs.isComponentRoot)) d =
      addComponents o nodes d := by
  induction nodes generalizing d with
  | nil => rw [SceneNode.prunedAll, List.filter_nil]
  | cons node rest ih =>
      by_cases hvisible : node.attrs.visible
      · by_cases hroot : node.attrs.isComponentRoot
        · simp [SceneNode.prunedAll, addComponents, SceneNode.attrs_pruned, hvisible, hroot,
            addNode_pruned, ih]
        · simp [SceneNode.prunedAll, addComponents, SceneNode.attrs_pruned, hvisible, hroot, ih]
      · simp [SceneNode.prunedAll, addComponents, hvisible, ih]

end Draft

/-- A canvas and what is left of it without hidden layers and without layers that are no components have
the same scene: the same nodes and links, the same assets and descriptions in the same order. -/
theorem ofCanvas_prunedCanvas (o : Options) (canvas : SceneNode) :
    NormalizedScene.ofCanvas o canvas.prunedCanvas = NormalizedScene.ofCanvas o canvas ∧
      ∀ node, TransGen SceneNode.HasChild canvas.prunedCanvas node → node.attrs.visible := by
  refine ⟨?_, fun node h => SceneNode.visible_of_prunedCanvas h⟩
  have hdraft := Draft.addComponents_pruned o canvas.children {}
  simp only [NormalizedScene.ofCanvas, SceneNode.prunedCanvas, hdraft]

end DesignCompiler

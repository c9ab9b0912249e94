import Mathlib.Logic.Relation
import DesignCompiler.Tree.Normalize

namespace DesignCompiler

namespace NodeTree

variable {t : NodeTree}

def Linked (t : NodeTree) : Prop := ∀ i, ∀ c ∈ t.children i, t.parent? c = some i

theorem lt_size_of_parent? {c i : Nat} (h : t.parent? c = some i) : c < t.size := by
  refine Nat.lt_of_not_le fun hc => ?_
  have hnone : t.nodes[c]? = none := Array.getElem?_eq_none hc
  rw [parent?, get?, hnone] at h
  cases h

theorem parent?_push_of_lt {attrs : NodeAttributes} {kind : NodeType} {constraints : Constraints}
    {params : Params} {parent : Option Nat} {c : Nat} (hc : c < t.size) :
    (t.push attrs kind constraints params parent).parent? c = t.parent? c := by
  have hne : c ≠ t.nodes.size := Nat.ne_of_lt hc
  cases parent with
  | none => simp [push, parent?, get?, Array.getElem?_push, hne]
  | some p =>
      simp only [push, parent?, get?, Array.getElem?_modify, Array.getElem?_push, hne, if_false]
      split
      · cases t.nodes[c]? <;> rfl
      · rfl

theorem parent?_push_size {attrs : NodeAttributes} {kind : NodeType} {constraints : Constraints}
    {params : Params} {parent : Option Nat} :
    (t.push attrs kind constraints params parent).parent? t.size = parent := by
  cases parent with
  | none => simp [push, parent?, get?, size]
  | some p =>
      simp only [push, parent?, get?, size, Array.getElem?_modify, Array.getElem?_push_size]
      split <;> rfl

theorem parent?_setMask (target mask c : Nat) :
    (t.setMask target mask).parent? c = t.parent? c := by
  unfold setMask
  split
  · simp only [parent?, get?, Array.getElem?_modify]
    cases t.nodes[c]? <;> grind
  · rfl

theorem Linked.empty : Linked {} := by
  intro i c hc
  simp [children, get?] at hc

theorem Linked.push (h : t.Linked) (attrs : NodeAttributes) (kind : NodeType)
    (constraints : Constraints) (params : Params) (parent : Option Nat) :
    (t.push attrs kind constraints params parent).Linked := by
  have hold : ∀ i, ∀ c ∈ t.children i,
      (t.push attrs kind constraints params parent).parent? c = some i := by
    intro i c hc
    rw [parent?_push_of_lt (lt_size_of_parent? (h i c hc)), h i c hc]
  intro i c hc
  rw [children_push] at hc
  split at hc
  · next hi =>
    rcases List.mem_append.1 hc with hc | hc
    · exact hold i c hc
    · rw [List.mem_singleton.1 hc, parent?_push_size, hi.1]
  · exact hold i c hc

theorem Linked.setMask (h : t.Linked) (target mask : Nat) : (t.setMask target mask).Linked := by
  intro i c hc
  rw [children_setMask] at hc
  rw [parent?_setMask, h i c hc]

end NodeTree

namespace Draft

/-- A property of trees that no new node and no new mask breaks. -/
structure Kept (P : NodeTree → Prop) : Prop where
  push : ∀ {t : NodeTree}, P t → ∀ attrs kind constraints params parent,
    P (t.push attrs kind constraints params parent)
  setMask : ∀ {t : NodeTree}, P t → ∀ target mask, P (t.setMask target mask)

variable {P : NodeTree → Prop}

theorem Kept.linkMask (hP : Kept P) {d : Draft} (h : P d.tree) (mask : Nat) (id : String) :
    P (d.linkMask mask id).tree := by
  unfold Draft.linkMask
  split
  · exact hP.setMask h _ _
  · exact h

mutual

theorem Kept.addNode (hP : Kept P) (o : Options) (parent : Option Nat) (node : SceneNode) (d : Draft)
    (h : P d.tree) : P (Draft.addNode o parent node d).tree := by
  match node with
  | ⟨attrs, children⟩ =>
    have hadd : P (d.add o parent attrs (normalForm attrs children).1
        (normalForm attrs children).2).tree := hP.push h ..
    rw [Draft.addNode]
    dsimp only
    split
    · exact hadd
    · exact hP.addChildren o d.tree.size children _ hadd

theorem Kept.addChildren (hP : Kept P) (o : Options) (parent : Nat) (children : List SceneNode)
    (d : Draft) (h : P d.tree) : P (Draft.addChildren o parent children d).tree := by
  match children with
  | [] => exact h
  | child :: rest =>
    rw [Draft.addChildren]
    dsimp only
    split
    · have hnode := hP.addNode o (some parent) child d h
      split
      · exact hP.addChildren o parent rest _ (hP.linkMask hnode _ _)
      · exact hP.addChildren o parent rest _ hnode
    · exact hP.addChildren o parent rest d h

end

theorem Kept.of_add (hP : Kept P) {o : Options} {parent : Option Nat} {attrs : NodeAttributes}
    {children : List SceneNode} {d : Draft} (h : P (d.add o parent attrs (normalForm attrs children).1
      (normalForm attrs children).2).tree) : P (Draft.addNode o parent ⟨attrs, children⟩ d).tree := by
  rw [Draft.addNode]
  dsimp only
  split
  · exact h
  · exact hP.addChildren o d.tree.size children _ h

theorem Kept.addComponents (hP : Kept P) (o : Options) (nodes : List SceneNode) (d : Draft)
    (h : P d.tree) : P (Draft.addComponents o nodes d).tree := by
  induction nodes generalizing d with
  | nil => exact h
  | cons node rest ih =>
      rw [Draft.addComponents]
      apply ih
      split
      · exact hP.addNode o none node d h
      · exact h

end Draft

theorem NormalizedScene.linked_ofCanvas (o : Options) (canvas : SceneNode) :
    (NormalizedScene.ofCanvas o canvas).forest.Linked := by
  have hkept : Draft.Kept NodeTree.Linked := ⟨NodeTree.Linked.push, NodeTree.Linked.setMask⟩
  exact hkept.addComponents o canvas.children {} .empty

end DesignCompiler

import DesignCompiler.Proofs.Collection
import DesignCompiler.Proofs.Masks
import DesignCompiler.Proofs.Pruning

namespace DesignCompiler

open Relation

structure NodeTree.StandsFor (canvas : SceneNode) (origin : Nat → SceneNode) (t : NodeTree) : Prop where
  attrs_eq : ∀ i attrs kind, t.faceAt? i = some (attrs, kind) → (origin i).attrs = attrs
  hasChild : ∀ i, ∀ c ∈ t.children i, c < t.size ∧ (origin i).HasChild (origin c)
  inside : ∀ i < t.size, TransGen SceneNode.HasChild canvas (origin i)

namespace NodeTree.StandsFor

variable {canvas node : SceneNode} {origin : Nat → SceneNode} {t : NodeTree}

theorem push (h : t.StandsFor canvas origin) (hnode : TransGen SceneNode.HasChild canvas node)
    (kind : NodeType) (constraints : Constraints) (params : Params) {parent : Option Nat}
    (hp : ∀ p ∈ parent, p < t.size ∧ (origin p).HasChild node) :
    (t.push node.attrs kind constraints params parent).StandsFor canvas
      (Function.update origin t.size node) := by
  have hold : ∀ i, i < t.size → Function.update origin t.size node i = origin i :=
    fun i hi => Function.update_of_ne (Nat.ne_of_lt hi) ..
  have hnew : Function.update origin t.size node t.size = node := Function.update_self ..
  constructor
  · intro i attrs kind' hi
    rw [faceAt?_push] at hi
    split at hi
    · next heq =>
      cases hi
      rw [heq, hnew]
    · next hne =>
      rw [Function.update_of_ne hne]
      exact h.attrs_eq i attrs kind' hi
  · intro i c hc
    have hchild : ∀ c ∈ t.children i, c < t.size + 1 ∧
        (Function.update origin t.size node i).HasChild (Function.update origin t.size node c) := by
      intro c hc
      obtain ⟨hlt, hlayer⟩ := h.hasChild i c hc
      rw [hold i (lt_size_of_mem_children hc), hold c hlt]
      exact ⟨Nat.lt_succ_of_lt hlt, hlayer⟩
    rw [children_push] at hc
    rw [size_push]
    split at hc
    -- The new node is the last child of its parent.
    · next hparent =>
      rcases List.mem_append.1 hc with hc | hc
      · exact hchild c hc
      · obtain ⟨hlt, hlayer⟩ := hp i hparent.1
        rw [List.mem_singleton.1 hc, hnew, hold i hlt]
        exact ⟨Nat.lt_succ_self _, hlayer⟩
    · exact hchild c hc
  · intro i hi
    rw [size_push] at hi
    by_cases heq : i = t.size
    · rw [heq, hnew]
      exact hnode
    · rw [Function.update_of_ne heq]
      exact h.inside i (by omega)

theorem setMask (h : t.StandsFor canvas origin) (target mask : Nat) :
    (t.setMask target mask).StandsFor canvas origin := by
  refine ⟨?_, ?_, ?_⟩
  · intro i attrs kind hi
    rw [faceAt?_setMask] at hi
    exact h.attrs_eq i attrs kind hi
  · intro i c hc
    rw [children_setMask] at hc
    rw [size_setMask]
    exact h.hasChild i c hc
  · intro i hi
    rw [size_setMask] at hi
    exact h.inside i hi

end NodeTree.StandsFor

namespace Draft

variable {canvas : SceneNode}

def Extends (canvas : SceneNode) (origin : Nat → SceneNode) (size : Nat) (d : Draft) : Prop :=
  size ≤ d.tree.size ∧
    ∃ origin', (∀ i < size, origin' i = origin i) ∧ d.tree.StandsFor canvas origin'

theorem standsFor_linkMask {origin : Nat → SceneNode} {d : Draft} (h : d.tree.StandsFor canvas origin)
    (mask : Nat) (id : String) : (d.linkMask mask id).tree.StandsFor canvas origin := by
  unfold linkMask
  split
  · exact h.setMask _ _
  · exact h

mutual

theorem extends_addNode (o : Options) (parent : Option Nat) (node : SceneNode) {d : Draft}
    {origin : Nat → SceneNode} (h : d.tree.StandsFor canvas origin)
    (hnode : TransGen SceneNode.HasChild canvas node)
    (hp : ∀ p ∈ parent, p < d.tree.size ∧ (origin p).HasChild node) :
    (addNode o parent node d).Extends canvas origin d.tree.size := by
  match node with
  | ⟨attrs, children⟩ =>
    have hadd := h.push hnode (normalForm attrs children).1 (normalForm attrs children).2
      (.parse o.delimiters attrs.name) hp
    have hold : ∀ i < d.tree.size, Function.update origin d.tree.size ⟨attrs, children⟩ i = origin i :=
      fun i hi => Function.update_of_ne (Nat.ne_of_lt hi) ..
    have hsize : (d.add o parent attrs (normalForm attrs children).1
        (normalForm attrs children).2).tree.size = d.tree.size + 1 := NodeTree.size_push ..
    rw [addNode]
    dsimp only
    split
    · exact ⟨by omega, _, hold, hadd⟩
    · obtain ⟨hle, origin', hagree, hstands⟩ :=
        extends_addChildren o d.tree.size children (d := d.add o parent attrs _ _) hadd (by omega)
          (fun c hc => by rw [Function.update_self]; exact hc)
      refine ⟨by omega, origin', fun i hi => ?_, hstands⟩
      rw [hagree i (by omega), hold i hi]

theorem extends_addChildren (o : Options) (parent : Nat) (children : List SceneNode) {d : Draft}
    {origin : Nat → SceneNode} (h : d.tree.StandsFor canvas origin) (hp : parent < d.tree.size)
    (hc : ∀ c ∈ children, (origin parent).HasChild c) :
    (addChildren o parent children d).Extends canvas origin d.tree.size := by
  match children with
  | [] => exact ⟨Nat.le_refl _, origin, fun _ _ => rfl, h⟩
  | child :: rest =>
    have hchild := hc child List.mem_cons_self
    rw [addChildren]
    dsimp only
    split
    · obtain ⟨hle, origin', hagree, hstands⟩ := extends_addNode o (some parent) child h
        ((h.inside parent hp).tail hchild) (by rintro p ⟨⟩; exact ⟨hp, hchild⟩)
      have hrest : ∀ d' : Draft, d'.tree.StandsFor canvas origin' → d.tree.size ≤ d'.tree.size →
          (addChildren o parent rest d').Extends canvas origin d.tree.size := by
        intro d' hd' hle'
        obtain ⟨hsize, origin'', hagree', hstands'⟩ := extends_addChildren o parent rest hd'
          (by omega) (fun c hc' => by rw [hagree parent hp]; exact hc c (List.mem_cons_of_mem _ hc'))
        refine ⟨by omega, origin'', fun i hi => ?_, hstands'⟩
        rw [hagree' i (by omega), hagree i hi]
      split
      · exact hrest _ (standsFor_linkMask hstands _ _) (by rw [size_linkMask]; exact hle)
      · exact hrest _ hstands hle
    · exact extends_addChildren o parent rest h hp fun c hc' => hc c (List.mem_cons_of_mem _ hc')

end

theorem exists_standsFor_addComponents (o : Options) (nodes : List SceneNode) {d : Draft}
    (hnodes : ∀ node ∈ nodes, canvas.HasChild node) (h : ∃ origin, d.tree.StandsFor canvas origin) :
    ∃ origin, (addComponents o nodes d).tree.StandsFor canvas origin := by
  induction nodes generalizing d with
  | nil => exact h
  | cons node rest ih =>
      rw [addComponents]
      refine ih (fun c hc => hnodes c (List.mem_cons_of_mem _ hc)) ?_
      split
      · obtain ⟨origin, h⟩ := h
        obtain ⟨-, origin', -, hstands⟩ := extends_addNode o none node h
          (.single (hnodes node List.mem_cons_self)) (fun p hp => by cases hp)
        exact ⟨origin', hstands⟩
      · exact h

end Draft

namespace NormalizedScene

variable {o : Options} {canvas : SceneNode}

theorem exists_standsFor (o : Options) (canvas : SceneNode) :
    ∃ origin, (ofCanvas o canvas).tree.StandsFor canvas origin := by
  refine Draft.exists_standsFor_addComponents o canvas.children (fun _ h => h) ⟨fun _ => canvas, ?_, ?_, ?_⟩
  · intro i attrs kind h
    simp [NodeTree.faceAt?, NodeTree.get?] at h
  · intro i c h
    simp [NodeTree.children, NodeTree.get?] at h
  · intro i hi
    simp [NodeTree.size] at hi

/-- What is below a node stands for a layer below that of the node. -/
theorem exists_layers_of_below {m n : Nat} {a b : Node} (ha : (ofCanvas o canvas).forest.get? m = some a)
    (hb : (ofCanvas o canvas).forest.get? n = some b) (h : (ofCanvas o canvas).forest.Below m n) :
    ∃ above below : SceneNode, TransGen SceneNode.HasChild canvas above ∧
      TransGen SceneNode.HasChild above below ∧ above.attrs = a.attrs ∧ below.attrs = b.attrs := by
  obtain ⟨origin, hstands⟩ := exists_standsFor o canvas
  have hattrs : ∀ {i : Nat} {n : Node}, (ofCanvas o canvas).forest.get? i = some n →
      (origin i).attrs = n.attrs := by
    intro i n hn
    refine hstands.attrs_eq i n.attrs n.kind ?_
    rw [NodeTree.faceAt?, show (ofCanvas o canvas).tree.get? i = some n from hn, Option.map_some]
  have hm : m < (ofCanvas o canvas).tree.size := (Array.getElem?_eq_some_iff.1 ha).1
  refine ⟨origin m, origin n, hstands.inside m hm, ?_, hattrs ha, hattrs hb⟩
  exact TransGen.lift origin (fun i c hc => (hstands.hasChild i c hc).2) _ _ h

end NormalizedScene

end DesignCompiler

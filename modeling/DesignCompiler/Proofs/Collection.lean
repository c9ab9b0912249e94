import DesignCompiler.Proofs.Links

namespace DesignCompiler

namespace NodeTree

variable {t : NodeTree} {attrs : NodeAttributes} {kind : NodeType} {constraints : Constraints}
  {params : Params} {parent : Option Nat}

def faceAt? (t : NodeTree) (i : Nat) : Option (NodeAttributes × NodeType) :=
  (t.get? i).map fun n => (n.attrs, n.kind)

def maskAt? (t : NodeTree) (i : Nat) : Option Nat := (t.get? i).bind (·.mask)

theorem faceAt?_push (i : Nat) :
    (t.push attrs kind constraints params parent).faceAt? i =
      if i = t.size then some (attrs, kind) else t.faceAt? i := by
  cases parent with
  | none => simp [push, faceAt?, get?, Array.getElem?_push, size]; grind
  | some p => simp [push, faceAt?, get?, Array.getElem?_modify, Array.getElem?_push, size]; grind

theorem maskAt?_push (i : Nat) :
    (t.push attrs kind constraints params parent).maskAt? i = t.maskAt? i := by
  cases parent with
  | none => simp [push, maskAt?, get?, Array.getElem?_push, size]; grind
  | some p => simp [push, maskAt?, get?, Array.getElem?_modify, Array.getElem?_push, size]; grind

theorem faceAt?_setMask (target mask i : Nat) : (t.setMask target mask).faceAt? i = t.faceAt? i := by
  unfold setMask
  split
  · simp only [faceAt?, get?, Array.getElem?_modify]
    cases t.nodes[i]? <;> grind
  · rfl

theorem maskAt?_setMask {target mask i m : Nat} (h : (t.setMask target mask).maskAt? i = some m) :
    t.maskAt? i = some m ∨ m = mask := by
  unfold setMask at h
  split at h
  · simp only [maskAt?, get?, Array.getElem?_modify] at h ⊢
    cases hn : t.nodes[i]? <;> grind
  · exact .inl h

theorem faceAt?_eq_none_of_le {i : Nat} (h : t.size ≤ i) : t.faceAt? i = none := by
  rw [faceAt?, get?, Array.getElem?_eq_none h, Option.map_none]

end NodeTree

namespace Draft

theorem kept_faceAt? (i : Nat) (face : NodeAttributes × NodeType) :
    Kept fun t => t.faceAt? i = some face where
  push {t} h attrs kind constraints params parent := by
    have hne : i ≠ t.size := by
      rintro rfl
      rw [NodeTree.faceAt?_eq_none_of_le (Nat.le_refl _)] at h
      cases h
    rw [NodeTree.faceAt?_push, if_neg hne, h]
  setMask h target mask := by rw [NodeTree.faceAt?_setMask, h]

theorem faceAt?_addNode (o : Options) (parent : Option Nat) (node : SceneNode) (d : Draft) :
    (addNode o parent node d).tree.faceAt? d.tree.size =
      some (node.attrs, (normalForm node.attrs node.children).1) := by
  obtain ⟨attrs, children⟩ := node
  refine (kept_faceAt? _ _).of_add ?_
  rw [add, NodeTree.faceAt?_push, if_pos rfl]

theorem kept_le_size (n : Nat) : Kept fun t => n ≤ t.size where
  push h attrs kind constraints params parent := by
    rw [NodeTree.size_push]
    omega
  setMask h target mask := by rwa [NodeTree.size_setMask]

/-- What no new node breaks whose parent is there, and no mask that is linked under its own id. -/
structure Invariant (o : Options) (P : Draft → Prop) : Prop where
  add : ∀ {d : Draft}, P d → ∀ {parent : Option Nat} attrs children, (∀ p ∈ parent, p < d.tree.size) →
    P (d.add o parent attrs (normalForm attrs children).1 (normalForm attrs children).2)
  linkMask : ∀ {d : Draft}, P d → ∀ {mask attrs kind},
    d.tree.faceAt? mask = some (attrs, kind) → attrs.isMask → P (d.linkMask mask attrs.id)

namespace Invariant

variable {o : Options} {P : Draft → Prop}

mutual

theorem addNode (hP : Invariant o P) (parent : Option Nat) (node : SceneNode) {d : Draft} (h : P d)
    (hp : ∀ p ∈ parent, p < d.tree.size) : P (Draft.addNode o parent node d) := by
  match node with
  | ⟨attrs, children⟩ =>
    have hadd := hP.add h attrs children hp
    rw [Draft.addNode]
    dsimp only
    split
    · exact hadd
    · exact hP.addChildren d.tree.size children hadd (NodeTree.size_push .. ▸ Nat.lt_succ_self _)

theorem addChildren (hP : Invariant o P) (parent : Nat) (children : List SceneNode) {d : Draft}
    (h : P d) (hp : parent < d.tree.size) : P (Draft.addChildren o parent children d) := by
  match children with
  | [] => exact h
  | child :: rest =>
    rw [Draft.addChildren]
    dsimp only
    split
    · have hnode := hP.addNode (some parent) child h (by simpa using hp)
      have hle := (kept_le_size _).addNode o (some parent) child d (Nat.le_refl _)
      split
      · next hmask =>
        exact hP.addChildren parent rest (hP.linkMask hnode (faceAt?_addNode o _ child d) hmask)
          (by rw [size_linkMask]; omega)
      · exact hP.addChildren parent rest hnode (by omega)
    · exact hP.addChildren parent rest h hp

end

theorem addComponents (hP : Invariant o P) (nodes : List SceneNode) {d : Draft} (h : P d) :
    P (Draft.addComponents o nodes d) := by
  induction nodes generalizing d with
  | nil => exact h
  | cons node rest ih =>
      rw [Draft.addComponents]
      apply ih
      split
      · exact hP.addNode none node h (by simp)
      · exact h

end Invariant

theorem mem_note {item x : String} {items : List String} : x ∈ note item items ↔ x = item ∨ x ∈ items := by
  unfold note
  split
  · next h => grind
  · simp [or_comm]

theorem mem_foldl_note {x : String} {items refs : List String} :
    x ∈ refs.foldl (fun refs ref => note ref refs) items ↔ x ∈ refs ∨ x ∈ items := by
  induction refs generalizing items with
  | nil => simp
  | cons ref refs ih => simp only [List.foldl_cons, ih, mem_note, List.mem_cons]; grind

structure Collects (d : Draft) : Prop where
  vectors : ∀ i attrs, d.tree.faceAt? i = some (attrs, .vector) → attrs.id ∈ d.vectors
  images : ∀ i attrs kind, d.tree.faceAt? i = some (attrs, kind) →
    ∀ ref ∈ imageRefs attrs.fills, ref ∈ d.images
  masks : ∀ i m, d.tree.maskAt? i = some m →
    ∃ attrs kind, d.tree.faceAt? m = some (attrs, kind) ∧ attrs.id ∈ d.masks

theorem Collects.empty : Collects {} where
  vectors i attrs h := by simp [NodeTree.faceAt?, NodeTree.get?] at h
  images i attrs kind h := by simp [NodeTree.faceAt?, NodeTree.get?] at h
  masks i m h := by simp [NodeTree.maskAt?, NodeTree.get?] at h

theorem Collects.add {d : Draft} (h : d.Collects) (o : Options) (parent : Option Nat)
    (attrs : NodeAttributes) (kind : NodeType) (constraints : Constraints) :
    (d.add o parent attrs kind constraints).Collects where
  vectors i attrs' hi := by
    rw [Draft.add, NodeTree.faceAt?_push] at hi
    rw [Draft.add]
    split at hi
    · cases hi
      simp [mem_note]
    · have hold := h.vectors i attrs' hi
      dsimp only
      split
      · exact mem_note.2 (.inr hold)
      · exact hold
  images i attrs' kind' hi ref href := by
    rw [Draft.add, NodeTree.faceAt?_push] at hi
    refine mem_foldl_note.2 ?_
    split at hi
    · cases hi
      exact .inl href
    · exact .inr (h.images i attrs' kind' hi ref href)
  masks i m hm := by
    rw [Draft.add, NodeTree.maskAt?_push] at hm
    obtain ⟨attrs', kind', hface, hid⟩ := h.masks i m hm
    exact ⟨attrs', kind', (kept_faceAt? m _).push hface .., hid⟩

theorem Collects.linkMask {d : Draft} (h : d.Collects) {mask : Nat} {attrs : NodeAttributes}
    {kind : NodeType} (hmask : d.tree.faceAt? mask = some (attrs, kind)) :
    (d.linkMask mask attrs.id).Collects := by
  unfold Draft.linkMask
  split
  · next target =>
    constructor
    · intro i attrs' hi
      rw [NodeTree.faceAt?_setMask] at hi
      exact h.vectors i attrs' hi
    · intro i attrs' kind' hi
      rw [NodeTree.faceAt?_setMask] at hi
      exact h.images i attrs' kind' hi
    · intro i m hm
      dsimp only at hm ⊢
      rw [NodeTree.faceAt?_setMask]
      rcases NodeTree.maskAt?_setMask hm with hold | rfl
      · obtain ⟨attrs', kind', hface, hid⟩ := h.masks i m hold
        exact ⟨attrs', kind', hface, mem_note.2 (.inr hid)⟩
      · exact ⟨attrs, kind, hmask, mem_note.2 (.inl rfl)⟩
  · exact h

end Draft

theorem NormalizedScene.collects_ofCanvas (o : Options) (canvas : SceneNode) :
    (NormalizedScene.ofCanvas o canvas).Collects := by
  have hcollects : Draft.Invariant o Draft.Collects :=
    ⟨fun h _ attrs _ _ => h.add o _ attrs _ _, fun h _ _ _ hmask _ => h.linkMask hmask⟩
  exact hcollects.addComponents canvas.children .empty

end DesignCompiler

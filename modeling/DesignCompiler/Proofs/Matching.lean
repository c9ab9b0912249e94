import DesignCompiler.Proofs.Mirroring
import DesignCompiler.Proofs.Siblings

namespace DesignCompiler

namespace NodeTree

theorem exists_of_before? {x a : Nat} {l : List Nat} (h : before? x l = some a) :
    ∃ before after, l = before ++ a :: x :: after := by
  fun_induction before? x l with
  | case1 => cases h
  | case2 a' rest _ =>
      cases h
      exact ⟨[], rest, rfl⟩
  | case3 a' b rest _ _ ih =>
      obtain ⟨before, after, heq⟩ := ih h
      exact ⟨a' :: before, after, by rw [heq]; rfl⟩
  | case4 => cases h

theorem before?_append {x a : Nat} {before : List Nat} (after : List Nat) (hx : x ∉ before) (ha : a ≠ x) :
    before? x (before ++ a :: x :: after) = some a := by
  induction before with
  | nil => simp [before?, ha]
  | cons b rest ih =>
      have hnext := ih fun hmem => hx (List.mem_cons_of_mem b hmem)
      cases rest with
      | nil => grind [before?]
      | cons c rest => grind [before?]

variable {t : NodeTree} {p q i j m n : Nat}

def Follows (t : NodeTree) (p i m : Nat) : Prop := ∃ before after, t.children p = before ++ i :: m :: after

theorem Follows.left_mem (h : t.Follows p i m) : i ∈ t.children p := by
  obtain ⟨before, after, h⟩ := h
  simp [h]

theorem Follows.right_mem (h : t.Follows p i m) : m ∈ t.children p := by
  obtain ⟨before, after, h⟩ := h
  simp [h]

namespace Tidy

theorem previousSibling?_eq_some_iff (ht : t.Tidy) :
    t.previousSibling? m = some i ↔ ∃ p, t.Follows p i m := by
  rw [previousSibling?, Option.bind_eq_some_iff]
  constructor
  · rintro ⟨p, -, h⟩
    exact ⟨p, exists_of_before? h⟩
  · rintro ⟨p, h⟩
    refine ⟨p, ht.linked p m h.right_mem, ?_⟩
    have hnodup := ht.nodup_children p
    obtain ⟨before, after, h⟩ := h
    rw [h] at hnodup ⊢
    have hparts := List.nodup_append.1 hnodup
    refine before?_append after (fun hm => hparts.2.2 m hm m (by simp) rfl) ?_
    rintro rfl
    simp at hparts

theorem left_unique (ht : t.Tidy) (h : t.Follows p i m) (h' : t.Follows q j m) : i = j := by
  have hi := ht.previousSibling?_eq_some_iff.2 ⟨p, h⟩
  have hj := ht.previousSibling?_eq_some_iff.2 ⟨q, h'⟩
  exact Option.some.inj (hi.symm.trans hj)

theorem right_unique (ht : t.Tidy) (h : t.Follows p i m) (h' : t.Follows q i n) : m = n := by
  obtain rfl : p = q := Option.some.inj ((ht.linked p i h.left_mem).symm.trans (ht.linked q i h'.left_mem))
  have hnodup := ht.nodup_children p
  obtain ⟨before, after, h⟩ := h
  obtain ⟨before', after', h'⟩ := h'
  rw [h, List.nodup_middle, List.nodup_cons, List.mem_append, not_or] at hnodup
  rw [h, List.append_cons_inj_of_notMem hnodup.1.1 hnodup.1.2] at h'
  exact (List.cons.inj h'.2.2).1

theorem not_follows_of_head (ht : t.Tidy) {rest : List Nat} (h : t.children p = m :: rest) :
    ¬t.Follows q i m := by
  intro hfollows
  have hsome := ht.previousSibling?_eq_some_iff.2 ⟨q, hfollows⟩
  have hparent := ht.linked p m (h ▸ List.mem_cons_self ..)
  rw [previousSibling?, hparent, Option.bind_some, h] at hsome
  cases rest <;> simp [before?] at hsome

end Tidy

variable {attrs : NodeAttributes} {kind : NodeType} {constraints : Constraints} {params : Params}
  {parent : Option Nat}

theorem follows_push_iff (hm : m ≠ t.size) :
    (t.push attrs kind constraints params parent).Follows p i m ↔ t.Follows p i m := by
  simp only [Follows, children_push]
  split
  · constructor
    · rintro ⟨before, after, h⟩
      rcases List.eq_nil_or_concat after with rfl | ⟨after, last, rfl⟩
      · have hlast : t.children p ++ [t.size] = (before ++ [i]) ++ [m] := by simpa using h
        exact absurd (List.cons.inj (List.append_inj_right' hlast rfl)).1.symm hm
      · have hlast : t.children p ++ [t.size] = (before ++ i :: m :: after) ++ [last] := by simpa using h
        exact ⟨before, after, List.append_inj_left' hlast rfl⟩
    · rintro ⟨before, after, h⟩
      exact ⟨before, after ++ [t.size], by simp [h]⟩
  · rfl

theorem follows_setMask_iff (target mask : Nat) : (t.setMask target mask).Follows p i m ↔ t.Follows p i m := by
  rw [Follows, children_setMask, Follows]

def maskedAt? (t : NodeTree) (i : Nat) : Option Nat := (t.get? i).bind (·.masked)

theorem maskedAt?_push (i : Nat) :
    (t.push attrs kind constraints params parent).maskedAt? i = t.maskedAt? i := by
  cases parent with
  | none => simp [push, maskedAt?, get?, Array.getElem?_push, size]; grind
  | some p => simp [push, maskedAt?, get?, Array.getElem?_modify, Array.getElem?_push, size]; grind

theorem maskAt?_setMask_eq {target mask : Nat} (ht : target < t.size) (hm : mask < t.size) (i : Nat) :
    (t.setMask target mask).maskAt? i = if i = target then some mask else t.maskAt? i := by
  rw [setMask, if_pos ⟨ht, hm⟩]
  simp only [maskAt?, get?, Array.getElem?_modify]
  have hget : t.nodes[target]? = some t.nodes[target] := Array.getElem?_eq_getElem ht
  cases hn : t.nodes[i]? <;> grind

theorem maskedAt?_setMask_eq {target mask : Nat} (ht : target < t.size) (hm : mask < t.size) (i : Nat) :
    (t.setMask target mask).maskedAt? i = if i = mask then some target else t.maskedAt? i := by
  rw [setMask, if_pos ⟨ht, hm⟩]
  simp only [maskedAt?, get?, Array.getElem?_modify]
  have hget : t.nodes[mask]? = some t.nodes[mask] := Array.getElem?_eq_getElem hm
  cases hn : t.nodes[i]? <;> grind

def IsMask (t : NodeTree) (m : Nat) : Prop := ∃ attrs kind, t.faceAt? m = some (attrs, kind) ∧ attrs.isMask

theorem isMask_push_iff (hm : m ≠ t.size) :
    (t.push attrs kind constraints params parent).IsMask m ↔ t.IsMask m := by
  simp only [IsMask, faceAt?_push, if_neg hm]

theorem isMask_setMask_iff (target mask : Nat) : (t.setMask target mask).IsMask m ↔ t.IsMask m := by
  simp only [IsMask, faceAt?_setMask]

end NodeTree

namespace Draft

theorem nodup_note {item : String} {items : List String} (h : items.Nodup) : (note item items).Nodup := by
  unfold note
  split
  · exact h
  · next hitem =>
    rw [← List.concat_eq_append]
    exact h.concat hitem

/-- The links pair each mask with what stands right before it, but for some nodes whose links are still to
be made. -/
structure Pairs (pending : List Nat) (d : Draft) : Prop where
  tidy : d.tree.Tidy
  mask_iff : ∀ i m, d.tree.maskAt? i = some m ↔ d.tree.maskedAt? m = some i
  follows : ∀ i m, d.tree.maskedAt? m = some i → d.tree.IsMask m ∧ ∃ p, d.tree.Follows p i m
  linked : ∀ p i m, m ∉ pending → d.tree.IsMask m → d.tree.Follows p i m → d.tree.maskedAt? m = some i
  mem_masks : ∀ id, id ∈ d.masks ↔ ∃ i m attrs kind,
    d.tree.maskedAt? m = some i ∧ d.tree.faceAt? m = some (attrs, kind) ∧ attrs.id = id
  nodup_masks : d.masks.Nodup

namespace Pairs

variable {pending : List Nat} {d : Draft} {m : Nat}

theorem empty : Pairs [] {} where
  tidy := .empty
  mask_iff i m := by simp [NodeTree.maskAt?, NodeTree.maskedAt?, NodeTree.get?]
  follows i m h := by simp [NodeTree.maskedAt?, NodeTree.get?] at h
  linked p i m _ h _ := by simp [NodeTree.IsMask, NodeTree.faceAt?, NodeTree.get?] at h
  mem_masks id := by simp [NodeTree.maskedAt?, NodeTree.get?]
  nodup_masks := .nil

theorem drop (h : d.Pairs (m :: pending))
    (hm : ∀ p i, d.tree.IsMask m → d.tree.Follows p i m → d.tree.maskedAt? m = some i) :
    d.Pairs pending where
  tidy := h.tidy
  mask_iff := h.mask_iff
  follows := h.follows
  linked p i n hn hmask hfollows := by
    by_cases heq : n = m
    · subst heq
      exact hm p i hmask hfollows
    · exact h.linked p i n (by simp [heq, hn]) hmask hfollows
  mem_masks := h.mem_masks
  nodup_masks := h.nodup_masks

theorem lt_size (h : d.Pairs pending) {i : Nat} (hm : d.tree.maskedAt? m = some i) : m < d.tree.size := by
  obtain ⟨-, p, hp⟩ := h.follows i m hm
  exact NodeTree.lt_size_of_parent? (h.tidy.linked p m hp.right_mem)

theorem add (h : d.Pairs pending) (o : Options) (parent : Option Nat) (attrs : NodeAttributes)
    (kind : NodeType) (constraints : Constraints) :
    (d.add o parent attrs kind constraints).Pairs (d.tree.size :: pending) where
  tidy := h.tidy.push ..
  mask_iff i m := by
    rw [Draft.add, NodeTree.maskAt?_push, NodeTree.maskedAt?_push]
    exact h.mask_iff i m
  follows i m hm := by
    rw [Draft.add, NodeTree.maskedAt?_push] at hm
    have hne : m ≠ d.tree.size := Nat.ne_of_lt (h.lt_size hm)
    obtain ⟨hmask, p, hp⟩ := h.follows i m hm
    exact ⟨(NodeTree.isMask_push_iff hne).2 hmask, p, (NodeTree.follows_push_iff hne).2 hp⟩
  linked p i m hm hmask hfollows := by
    obtain ⟨hne, hm⟩ := not_or.1 (mt List.mem_cons.2 hm)
    rw [Draft.add, NodeTree.maskedAt?_push]
    exact h.linked p i m hm ((NodeTree.isMask_push_iff hne).1 hmask)
      ((NodeTree.follows_push_iff hne).1 hfollows)
  mem_masks id := by
    rw [Draft.add, h.mem_masks]
    refine exists_congr fun i => exists_congr fun m => exists_congr fun attrs' => exists_congr fun kind' => ?_
    rw [NodeTree.maskedAt?_push]
    refine and_congr_right fun hm => ?_
    rw [NodeTree.faceAt?_push, if_neg (Nat.ne_of_lt (h.lt_size hm))]
  nodup_masks := h.nodup_masks

theorem setMask (h : d.Pairs (m :: pending)) {attrs : NodeAttributes} {kind : NodeType} {p target : Nat}
    (hface : d.tree.faceAt? m = some (attrs, kind)) (hmask : attrs.isMask) (hp : d.tree.Follows p target m) :
    Pairs pending { d with tree := d.tree.setMask target m, masks := note attrs.id d.masks } := by
  have ht := NodeTree.lt_size_of_parent? (h.tidy.linked p target hp.left_mem)
  have hm := NodeTree.lt_size_of_parent? (h.tidy.linked p m hp.right_mem)
  have htarget : ∀ i, d.tree.maskedAt? m = some i → i = target := by
    intro i hi
    obtain ⟨-, q, hq⟩ := h.follows i m hi
    exact h.tidy.left_unique hq hp
  have hself : ∀ j, d.tree.maskedAt? j = some target → j = m := by
    intro j hj
    obtain ⟨-, q, hq⟩ := h.follows target j hj
    exact h.tidy.right_unique hq hp
  constructor
  case tidy => exact h.tidy.setMask ..
  case mask_iff =>
    intro i j
    rw [NodeTree.maskAt?_setMask_eq ht hm, NodeTree.maskedAt?_setMask_eq ht hm]
    have hold := h.mask_iff i j
    grind
  case follows =>
    intro i j hj
    rw [NodeTree.maskedAt?_setMask_eq ht hm] at hj
    simp only [NodeTree.isMask_setMask_iff, NodeTree.follows_setMask_iff]
    split at hj
    · next heq =>
      cases hj
      exact heq ▸ ⟨⟨attrs, kind, hface, hmask⟩, p, hp⟩
    · exact h.follows i j hj
  case linked =>
    intro q i j hj hmask' hfollows
    rw [NodeTree.isMask_setMask_iff] at hmask'
    rw [NodeTree.follows_setMask_iff] at hfollows
    rw [NodeTree.maskedAt?_setMask_eq ht hm]
    split
    · next heq =>
      subst heq
      exact congrArg some (h.tidy.left_unique hp hfollows)
    · next hne => exact h.linked q i j (by simp [hne, hj]) hmask' hfollows
  case mem_masks =>
    intro id
    simp only [mem_note, h.mem_masks, NodeTree.maskedAt?_setMask_eq ht hm, NodeTree.faceAt?_setMask]
    constructor
    · rintro (rfl | ⟨i, j, attrs', kind', hj, hface', hid⟩)
      · exact ⟨target, m, attrs, kind, if_pos rfl, hface, rfl⟩
      · by_cases heq : j = m
        · exact ⟨target, j, attrs', kind', if_pos heq, hface', hid⟩
        · exact ⟨i, j, attrs', kind', (if_neg heq).trans hj, hface', hid⟩
    · rintro ⟨i, j, attrs', kind', hj, hface', hid⟩
      split at hj
      · next heq =>
        rw [heq, hface] at hface'
        cases hface'
        exact .inl hid.symm
      · exact .inr ⟨i, j, attrs', kind', hj, hface', hid⟩
  case nodup_masks => exact nodup_note h.nodup_masks

theorem linkMask (h : d.Pairs (m :: pending)) {attrs : NodeAttributes} {kind : NodeType}
    (hface : d.tree.faceAt? m = some (attrs, kind)) (hmask : attrs.isMask) :
    (d.linkMask m attrs.id).Pairs pending := by
  unfold Draft.linkMask
  split
  · next target hprevious =>
    obtain ⟨p, hp⟩ := h.tidy.previousSibling?_eq_some_iff.1 hprevious
    exact h.setMask hface hmask hp
  · next hprevious =>
    refine h.drop fun p i _ hfollows => ?_
    have hsome := h.tidy.previousSibling?_eq_some_iff.2 ⟨p, hfollows⟩
    rw [hprevious] at hsome
    cases hsome

end Pairs

mutual

theorem pairs_addNode (o : Options) (parent : Option Nat) (node : SceneNode) {pending : List Nat} {d : Draft}
    (h : d.Pairs pending) : (addNode o parent node d).Pairs (d.tree.size :: pending) := by
  match node with
  | ⟨attrs, children⟩ =>
    have hadd := h.add o parent attrs (normalForm attrs children).1 (normalForm attrs children).2
    rw [addNode]
    dsimp only
    split
    · exact hadd
    · exact pairs_addChildren o d.tree.size children hadd

theorem pairs_addChildren (o : Options) (parent : Nat) (children : List SceneNode) {pending : List Nat}
    {d : Draft} (h : d.Pairs pending) : (addChildren o parent children d).Pairs pending := by
  match children with
  | [] => exact h
  | child :: rest =>
    rw [addChildren]
    dsimp only
    split
    · have hnode := pairs_addNode o (some parent) child h
      have hface := faceAt?_addNode o (some parent) child d
      split
      · next hmask => exact pairs_addChildren o parent rest (hnode.linkMask hface hmask)
      · next hmask =>
        refine pairs_addChildren o parent rest (hnode.drop fun p i hisMask _ => ?_)
        obtain ⟨attrs, kind, hface', hmask'⟩ := hisMask
        rw [hface] at hface'
        cases hface'
        exact absurd hmask' hmask
    · exact pairs_addChildren o parent rest h

end

theorem kept_parent? (i : Nat) (parent : Option Nat) : Kept fun t => i < t.size ∧ t.parent? i = parent where
  push h attrs kind constraints params parent' := by
    rw [NodeTree.size_push, NodeTree.parent?_push_of_lt h.1]
    exact ⟨Nat.lt_succ_of_lt h.1, h.2⟩
  setMask h target mask := by rwa [NodeTree.size_setMask, NodeTree.parent?_setMask]

theorem parent?_addNode (o : Options) (parent : Option Nat) (node : SceneNode) (d : Draft) :
    (addNode o parent node d).tree.parent? d.tree.size = parent := by
  obtain ⟨attrs, children⟩ := node
  refine ((kept_parent? _ _).of_add ?_).2
  rw [add, NodeTree.size_push, NodeTree.parent?_push_size]
  exact ⟨Nat.lt_succ_self _, rfl⟩

theorem pairs_addComponents (o : Options) (nodes : List SceneNode) {d : Draft} (h : d.Pairs []) :
    (addComponents o nodes d).Pairs [] := by
  induction nodes generalizing d with
  | nil => exact h
  | cons node rest ih =>
      rw [addComponents]
      apply ih
      split
      · -- A root follows nothing, so that nothing is left to be linked.
        have hnode := pairs_addNode o none node h
        refine hnode.drop fun p i _ hfollows => ?_
        have hparent := hnode.tidy.linked p _ hfollows.right_mem
        rw [parent?_addNode] at hparent
        cases hparent
      · exact h

end Draft

/-- The masks of a scene are paired with the siblings right before them. -/
structure NormalizedScene.PairsMasks (s : NormalizedScene) : Prop where
  mask_iff : ∀ i m, s.tree.maskAt? i = some m ↔ s.tree.maskedAt? m = some i
  adjacent : ∀ i m, s.tree.maskAt? i = some m → s.tree.IsMask m ∧
    ∃ p, s.tree.parent? i = some p ∧ s.tree.parent? m = some p ∧ s.tree.Follows p i m
  linked : ∀ p before m after, s.tree.children p = before ++ m :: after → before ≠ [] → s.tree.IsMask m →
    ∃ i, before.getLast? = some i ∧ s.tree.maskedAt? m = some i
  first : ∀ p m rest, s.tree.children p = m :: rest → s.tree.maskedAt? m = none
  root : ∀ m ∈ s.tree.roots, s.tree.maskedAt? m = none
  mem_masks : ∀ id, id ∈ s.masks ↔ ∃ i m attrs kind,
    s.tree.maskedAt? m = some i ∧ s.tree.faceAt? m = some (attrs, kind) ∧ attrs.id = id
  nodup_masks : s.masks.Nodup

theorem pairsMasks_ofCanvas (o : Options) (canvas : SceneNode) :
    (NormalizedScene.ofCanvas o canvas).PairsMasks := by
  have hpairs : (NormalizedScene.ofCanvas o canvas).Pairs [] :=
    Draft.pairs_addComponents o canvas.children .empty
  have htidy := hpairs.tidy
  have hroots := (NormalizedScene.linksBack_ofCanvas o canvas).roots_eq
  constructor
  case mask_iff => exact hpairs.mask_iff
  case adjacent =>
    intro i m hmask
    obtain ⟨hisMask, p, hp⟩ := hpairs.follows i m ((hpairs.mask_iff i m).1 hmask)
    exact ⟨hisMask, p, htidy.linked p i hp.left_mem, htidy.linked p m hp.right_mem, hp⟩
  case linked =>
    intro p before m after hchildren hbefore hisMask
    obtain ⟨before, i, rfl⟩ := List.eq_nil_or_concat before |>.resolve_left hbefore
    refine ⟨i, by simp, hpairs.linked p i m (by simp) hisMask ⟨before, after, ?_⟩⟩
    simpa using hchildren
  case first =>
    intro p m rest hchildren
    refine Option.eq_none_iff_forall_ne_some.2 fun i hi => ?_
    obtain ⟨-, q, hq⟩ := hpairs.follows i m hi
    exact htidy.not_follows_of_head hchildren hq
  case root =>
    intro m hm
    refine Option.eq_none_iff_forall_ne_some.2 fun i hi => ?_
    obtain ⟨-, q, hq⟩ := hpairs.follows i m hi
    rw [hroots, List.mem_filter, htidy.linked q m hq.right_mem] at hm
    simp at hm
  case mem_masks => exact hpairs.mem_masks
  case nodup_masks => exact hpairs.nodup_masks

end DesignCompiler

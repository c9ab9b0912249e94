import DesignCompiler.Proofs.Masks

namespace DesignCompiler

open Relation

namespace NodeTree

variable {t : NodeTree}

/-- A node stands under its own index and once among the children of its parent. -/
structure Tidy (t : NodeTree) : Prop where
  linked : t.Linked
  nodup_children : ∀ i, (t.children i).Nodup
  index_eq : ∀ i n, t.get? i = some n → n.index = i

theorem Tidy.empty : Tidy {} where
  linked := .empty
  nodup_children i := by simp [children, get?]
  index_eq i n h := by simp [get?] at h

theorem index_push {attrs : NodeAttributes} {kind : NodeType} {constraints : Constraints}
    {params : Params} {parent : Option Nat} (h : ∀ i n, t.get? i = some n → n.index = i) (i : Nat)
    (n : Node) (hn : (t.push attrs kind constraints params parent).get? i = some n) : n.index = i := by
  have hpushed : ∀ node : Node, node.index = t.size → ∀ m, (t.nodes.push node)[i]? = some m →
      m.index = i := by
    intro node hnode m hm
    rw [Array.getElem?_push] at hm
    split at hm
    · next hi =>
      rw [← Option.some.inj hm, hnode, hi]
      rfl
    · exact h i m hm
  cases parent with
  | none => exact hpushed _ rfl n hn
  | some p =>
      simp only [push, get?, Array.getElem?_modify] at hn
      split at hn
      · obtain ⟨m, hm, rfl⟩ := Option.map_eq_some_iff.1 hn
        exact hpushed _ (by rfl) m hm
      · exact hpushed _ (by rfl) n hn

theorem Tidy.push (h : t.Tidy) (attrs : NodeAttributes) (kind : NodeType) (constraints : Constraints)
    (params : Params) (parent : Option Nat) : (t.push attrs kind constraints params parent).Tidy where
  linked := NodeTree.Linked.push h.linked attrs kind constraints params parent
  nodup_children i := by
    have hnew : t.size ∉ t.children i := by
      intro hc
      exact absurd (lt_size_of_parent? (h.linked i _ hc)) (Nat.lt_irrefl _)
    rw [children_push]
    split
    · rw [← List.concat_eq_append]
      exact (h.nodup_children i).concat hnew
    · exact h.nodup_children i
  index_eq := index_push h.index_eq

theorem Tidy.setMask (h : t.Tidy) (target mask : Nat) : (t.setMask target mask).Tidy where
  linked := NodeTree.Linked.setMask h.linked target mask
  nodup_children i := by
    rw [children_setMask]
    exact h.nodup_children i
  index_eq i n hn := by
    have hmapped : ∀ {a : Option Node} {f : Node → Node}, (∀ m, (f m).index = m.index) →
        a.map f = some n → ∃ m, a = some m ∧ m.index = n.index := by
      intro a f hf ha
      obtain ⟨m, hm, rfl⟩ := Option.map_eq_some_iff.1 ha
      exact ⟨m, hm, (hf m).symm⟩
    unfold NodeTree.setMask at hn
    split at hn
    · simp only [get?, Array.getElem?_modify] at hn
      have hold : ∃ m, t.nodes[i]? = some m ∧ m.index = n.index := by
        split at hn <;> split at hn
        · obtain ⟨m, hm, hi⟩ := hmapped (by simp) hn
          obtain ⟨m', hm', rfl⟩ := Option.map_eq_some_iff.1 hm
          exact ⟨m', hm', hi⟩
        · exact hmapped (by simp) hn
        · exact hmapped (by simp) hn
        · exact ⟨n, hn, rfl⟩
      obtain ⟨m, hm, hi⟩ := hold
      rw [← hi, h.index_eq i m hm]
    · exact h.index_eq i n hn

end NodeTree

theorem NormalizedScene.tidy_ofCanvas (o : Options) (canvas : SceneNode) :
    (NormalizedScene.ofCanvas o canvas).forest.Tidy := by
  have hkept : Draft.Kept NodeTree.Tidy := ⟨NodeTree.Tidy.push, NodeTree.Tidy.setMask⟩
  exact hkept.addComponents o canvas.children {} .empty

namespace Forest

variable {f : Forest} {i c d j : Nat}

def AtOrBelow (f : Forest) : Nat → Nat → Prop := ReflTransGen f.HasChild

theorem AtOrBelow.le (h : f.AtOrBelow i c) : i ≤ c := by
  rcases reflTransGen_iff_eq_or_transGen.1 h with rfl | h
  · exact Nat.le_refl _
  · exact Nat.le_of_lt (Below.lt h)

/-- What is above a node is one chain. -/
theorem AtOrBelow.total (hl : f.Linked) (hc : f.AtOrBelow c j) (hd : f.AtOrBelow d j) :
    f.AtOrBelow c d ∨ f.AtOrBelow d c := by
  have hunique : Relator.RightUnique (Function.swap f.HasChild) := by
    intro a b b' hb hb'
    exact Option.some.inj ((hl b a hb).symm.trans (hl b' a hb'))
  have h := ReflTransGen.total_of_right_unique hunique (reflTransGen_swap.2 hc) (reflTransGen_swap.2 hd)
  exact h.symm.imp reflTransGen_swap.1 reflTransGen_swap.1

theorem eq_of_children (hl : f.Linked) (hc : f.HasChild i c) (hd : f.HasChild i d)
    (h : f.AtOrBelow c d) : c = d := by
  rcases reflTransGen_iff_eq_or_transGen.1 h with heq | hbelow
  · exact heq.symm
  · obtain ⟨p, hp, hpd⟩ := TransGen.tail'_iff.1 hbelow
    obtain rfl : p = i := Option.some.inj ((hl p d hpd).symm.trans (hl i d hd))
    have hle := AtOrBelow.le hp
    have hlt := f.ordered p c hc
    omega

theorem eq_of_flattened (hl : f.Linked) (hc : c ∈ f.flattened i) (hd : d ∈ f.flattened i)
    (h : f.AtOrBelow c d) : c = d := by
  rcases reflTransGen_iff_eq_or_transGen.1 h with heq | hbelow
  · exact heq.symm
  · rcases above_of_mem_flattened hl hd hbelow with habove | ⟨hthrough, -⟩
    · have hle := AtOrBelow.le habove
      have hlt := f.lt_of_mem_flattened hc
      omega
    · -- Only below a group could `d` be seen through `c`, and `c` is none, for it is drawn.
      obtain ⟨p, -, -, n, hn, hgroup⟩ := TransGen.tail'_iff.1 hthrough
      obtain ⟨q, -, -, m, hm, hplain, -⟩ := mem_flattened_iff_exists.1 hc
      rw [hn] at hm
      cases hm
      rw [hgroup] at hplain
      cases hplain

/-- Two nodes that one node draws have nothing below them in common. -/
theorem eq_of_atOrBelow (hl : f.Linked) (hc : c ∈ f.flattened i) (hd : d ∈ f.flattened i)
    (hcj : f.AtOrBelow c j) (hdj : f.AtOrBelow d j) : c = d := by
  rcases AtOrBelow.total hl hcj hdj with h | h
  · exact eq_of_flattened hl hc hd h
  · exact (eq_of_flattened hl hd hc h).symm

theorem pairwise_disjoint_of_atOrBelow (ht : f.Tidy) (i : Nat) {g : { c // c ∈ f.children i } → List Nat}
    (hg : ∀ c, ∀ x ∈ g c, f.AtOrBelow c.1 x) :
    (f.children i).attach.Pairwise (Function.onFun List.Disjoint g) := by
  refine List.Pairwise.imp ?_ (List.nodup_attach.2 (ht.nodup_children i))
  rintro ⟨c, hc⟩ ⟨d, hd⟩ hne x hcx hdx
  apply hne
  rcases AtOrBelow.total ht.linked (hg ⟨c, hc⟩ x hcx) (hg ⟨d, hd⟩ x hdx) with h | h
  · exact Subtype.ext (eq_of_children ht.linked hc hd h)
  · exact Subtype.ext (eq_of_children ht.linked hd hc h).symm

theorem nodup_flattened (ht : f.Tidy) (i : Nat) : (f.flattened i).Nodup := by
  induction i using flattened.induct f with
  | case1 i ih =>
      rw [flattened, List.nodup_flatMap]
      constructor
      · rintro ⟨c, hc⟩ -
        dsimp only
        split
        · exact List.nodup_nil
        · split
          · exact ih c hc
          · split
            · exact List.nodup_nil
            · exact List.nodup_singleton c
      · -- A node that came out of two children would be below both of them.
        apply pairwise_disjoint_of_atOrBelow ht
        rintro ⟨c, hc⟩ x hx
        dsimp only at hx
        split at hx
        · cases hx
        · split at hx
          · exact (below_of_mem_flattened hx).to_reflTransGen
          · split at hx
            · cases hx
            · rw [List.mem_singleton.1 hx]
              exact .refl

theorem node_stack (previous : Option Nat) (entries : List ChildEntry) :
    (Turn.stack previous entries).map Turn.node = entries.map ChildEntry.node := by
  induction entries generalizing previous with
  | nil => rfl
  | cons e rest ih => simp [Turn.stack, ih]

theorem node_turns (b : Buckets) :
    b.turns.map Turn.node = (b.min ++ b.center ++ b.max).map ChildEntry.node := by
  have hsingle : (b.center.map Turn.single).map Turn.node = b.center.map ChildEntry.node := by
    rw [List.map_map]
    rfl
  rw [Buckets.turns, List.map_append, List.map_append, node_stack, node_stack, hsingle,
    List.map_append, List.map_append]

theorem perm_buckets (f : Forest) (i : Nat) :
    ((f.buckets i).min ++ (f.buckets i).center ++ (f.buckets i).max).Perm (f.entries i) := by
  let top := fun e : ChildEntry => decide (f.verticalOf e.node = .top)
  let bottom := fun e : ChildEntry => decide (f.verticalOf e.node = .bottom)
  let rest := (f.entries i).filter fun e => !top e
  have hmin : (f.buckets i).min.Perm ((f.entries i).filter top) := List.mergeSort_perm ..
  have hmax : (f.buckets i).max.Perm (rest.filter bottom) := by
    have heq : (f.entries i).filter bottom = rest.filter bottom := by
      rw [List.filter_filter]
      refine List.filter_congr fun e _ => ?_
      by_cases h : f.verticalOf e.node = .bottom <;> simp [top, bottom, h]
    rw [← heq]
    exact List.mergeSort_perm ..
  have hcenter : (f.buckets i).center = rest.filter fun e => !bottom e := by
    rw [List.filter_filter]
    refine List.filter_congr fun e _ => ?_
    simp [top, bottom, and_comm]
  have hrest : ((f.buckets i).center ++ (f.buckets i).max).Perm rest := by
    rw [hcenter]
    exact ((hmax.append_left _).trans List.perm_append_comm).trans (List.filter_append_perm bottom rest)
  rw [List.append_assoc]
  exact (hmin.append hrest).trans (List.filter_append_perm top (f.entries i))

theorem perm_turns (f : Forest) (i : Nat) :
    ((f.buckets i).turns.map Turn.node).Perm (f.flattened i) := by
  have hentries : (f.entries i).map ChildEntry.node = f.flattened i := by
    rw [entries, List.map_map]
    exact List.zipIdx_map_fst 0 _
  rw [node_turns, ← hentries]
  exact (f.perm_buckets i).map _

theorem nodup_turns (ht : f.Tidy) (i : Nat) : ((f.buckets i).turns.map Turn.node).Nodup :=
  (f.perm_turns i).nodup_iff.2 (nodup_flattened ht i)

end Forest

end DesignCompiler

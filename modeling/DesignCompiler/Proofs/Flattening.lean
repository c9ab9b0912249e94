import Mathlib.Data.List.Flatten
import DesignCompiler.Proofs.Siblings

namespace DesignCompiler

open Relation

namespace Forest

variable (f : Forest)

def preorder (i : Nat) : List Nat :=
  i :: (f.children i).attach.flatMap fun ⟨c, hc⟩ =>
    have := f.ordered i c hc
    have := NodeTree.lt_size_of_mem_children hc
    preorder c
termination_by f.size - i

/-- The node `c` is a plain child of `i`, or of a group that `i` sees through. -/
def Takes (i c : Nat) : Prop := ∃ p, ReflTransGen f.SeesThrough i p ∧ f.HasChild p c ∧ f.IsPlain c

open Classical in
noncomputable def members (i : Nat) : List Nat := (f.preorder i).filter (f.Takes i ·)

/-- An entry comes before another one in its bucket: its node is higher, or as high and earlier in
document order. -/
def Above (e e' : ChildEntry) : Prop :=
  totalKey (f.topOf e.node) < totalKey (f.topOf e'.node) ∨
    totalKey (f.topOf e.node) = totalKey (f.topOf e'.node) ∧ e.order < e'.order

end Forest

/-- Buckets that hold some nodes, each once and under its place, by the edges that they hang from. -/
structure Buckets.Spread (f : Forest) (members : List Nat) (b : Buckets) : Prop where
  perm : (b.min ++ b.center ++ b.max).Perm (members.zipIdx.map fun (node, order) => ⟨node, order⟩)
  nodup : ((b.min ++ b.center ++ b.max).map ChildEntry.node).Nodup
  hangs : ∀ order c, members[order]? = some c → ∃ node, f.get? c = some node ∧
    (⟨c, order⟩ ∈ b.min ↔ node.constraints.vertical = .top) ∧
    (⟨c, order⟩ ∈ b.max ↔ node.constraints.vertical = .bottom) ∧
    (⟨c, order⟩ ∈ b.center ↔ node.constraints.vertical ≠ .top ∧ node.constraints.vertical ≠ .bottom)
  min_sorted : b.min.Pairwise f.Above
  center_sorted : b.center.Pairwise fun e e' => e.order < e'.order
  max_sorted : b.max.Pairwise f.Above

namespace Forest

variable {f : Forest} {i c : Nat}

theorem mem_preorder_iff : c ∈ f.preorder i ↔ f.AtOrBelow i c := by
  induction i using preorder.induct f with
  | case1 i ih =>
      rw [preorder, List.mem_cons, List.mem_flatMap, AtOrBelow, ReflTransGen.cases_head_iff, eq_comm]
      constructor
      · rintro (h | ⟨⟨d, hd⟩, -, hc⟩)
        · exact .inl h
        · exact .inr ⟨d, hd, (ih d hd).1 hc⟩
      · rintro (h | ⟨d, hd, hc⟩)
        · exact .inl h
        · exact .inr ⟨⟨d, hd⟩, List.mem_attach .., (ih d hd).2 hc⟩

theorem nodup_preorder (ht : f.Tidy) (i : Nat) : (f.preorder i).Nodup := by
  induction i using preorder.induct f with
  | case1 i ih =>
      rw [preorder, List.nodup_cons, List.nodup_flatMap]
      refine ⟨?_, fun d _ => ih d.1 d.2, ?_⟩
      · rw [List.mem_flatMap]
        rintro ⟨⟨d, hd⟩, -, hi⟩
        have hle := (mem_preorder_iff.1 hi).le
        have hlt := f.ordered i d hd
        omega
      · exact pairwise_disjoint_of_atOrBelow ht i fun d x hx => mem_preorder_iff.1 hx

/-- Seeing through groups leaves the order of the document as it is. -/
theorem flattened_sublist_preorder (f : Forest) (i : Nat) : (f.flattened i).Sublist (f.preorder i) := by
  induction i using flattened.induct f with
  | case1 i ih =>
      rw [flattened, preorder]
      refine .cons _ (List.Sublist.flatMap_right _ fun d _ => ?_)
      obtain ⟨d, hd⟩ := d
      dsimp only
      split
      · exact List.nil_sublist _
      · split
        · exact ih d hd
        · split
          · exact List.nil_sublist _
          · rw [preorder, List.singleton_sublist]
            exact List.mem_cons_self

theorem mem_flattened_iff_takes : c ∈ f.flattened i ↔ f.Takes i c := mem_flattened_iff_exists

theorem flattened_eq_members (ht : f.Tidy) (i : Nat) : f.flattened i = f.members i := by
  classical
  have hfilter : (f.flattened i).filter (f.Takes i ·) = f.flattened i :=
    List.filter_eq_self.2 fun c hc => decide_eq_true (mem_flattened_iff_takes.1 hc)
  have hsub : (f.flattened i).Sublist (f.members i) := by
    rw [← hfilter]
    exact (f.flattened_sublist_preorder i).filter _
  have hmem : ∀ c, c ∈ f.flattened i ↔ c ∈ f.members i := by
    intro c
    rw [members, List.mem_filter, decide_eq_true_iff, ← mem_flattened_iff_takes]
    exact (and_iff_right_of_imp fun hc => mem_preorder_iff.2 (below_of_mem_flattened hc).to_reflTransGen).symm
  have hperm := (List.perm_ext_iff_of_nodup (nodup_flattened ht i) ((nodup_preorder ht i).filter _)).2 hmem
  exact hsub.eq_of_length hperm.length_eq

theorem perm_sortByTop (entries : List ChildEntry) : (f.sortByTop entries).Perm entries :=
  List.mergeSort_perm ..

theorem filter_sortByTop (entries : List ChildEntry) (k : Int) :
    (f.sortByTop entries).filter (fun e => totalKey (f.topOf e.node) = k) =
      entries.filter fun e => totalKey (f.topOf e.node) = k := by
  set level := entries.filter fun e => totalKey (f.topOf e.node) = k with hlevel
  have hsame : level.Pairwise fun e e' =>
      decide (totalKey (f.topOf e.node) ≤ totalKey (f.topOf e'.node)) = true := by
    refine List.pairwise_of_forall_mem_list fun e he e' he' => ?_
    rw [hlevel, List.mem_filter, decide_eq_true_iff] at he he'
    exact decide_eq_true (Int.le_of_eq (he.2.trans he'.2.symm))
  have hsub : level.Sublist (f.sortByTop entries) :=
    List.sublist_mergeSort (by grind) (by grind) hsame List.filter_sublist
  have hlevels : level.Sublist ((f.sortByTop entries).filter fun e => totalKey (f.topOf e.node) = k) := by
    simpa [hlevel] using hsub.filter fun e => totalKey (f.topOf e.node) = k
  exact (hlevels.eq_of_length ((f.perm_sortByTop entries).filter _).length_eq.symm).symm

theorem pairwise_sortByTop {entries : List ChildEntry}
    (h : entries.Pairwise fun e e' => e.order < e'.order) : (f.sortByTop entries).Pairwise f.Above := by
  have hsorted : (f.sortByTop entries).Pairwise fun e e' =>
      decide (totalKey (f.topOf e.node) ≤ totalKey (f.topOf e'.node)) = true :=
    List.pairwise_mergeSort (by grind) (by grind) entries
  rw [List.pairwise_iff_forall_sublist] at h hsorted ⊢
  intro e e' hsub
  have hle := of_decide_eq_true (hsorted hsub)
  rcases Int.lt_or_eq_of_le hle with hlt | heq
  · exact .inl hlt
  · -- Both are of one height, where they stand as they did before.
    have hlevel := hsub.filter fun e => totalKey (f.topOf e.node) = totalKey (f.topOf e'.node)
    rw [filter_sortByTop] at hlevel
    have hboth : [e, e'].Sublist (entries.filter fun e => totalKey (f.topOf e.node) =
        totalKey (f.topOf e'.node)) := by simpa [heq] using hlevel
    exact .inr ⟨heq, h (hboth.trans List.filter_sublist)⟩

theorem exists_verticalOf (h : c ∈ f.flattened i) :
    ∃ node, f.get? c = some node ∧ f.verticalOf c = node.constraints.vertical := by
  obtain ⟨-, -, -, node, found, -⟩ := mem_flattened_iff_takes.1 h
  refine ⟨node, found, ?_⟩
  rw [verticalOf, found]
  rfl

theorem mem_sortByTop_filter {entries : List ChildEntry} {p : ChildEntry → Bool} {e : ChildEntry} :
    e ∈ f.sortByTop (entries.filter p) ↔ e ∈ entries ∧ p e := by
  rw [(f.perm_sortByTop _).mem_iff, List.mem_filter]

theorem pairwise_entries (f : Forest) (i : Nat) :
    (f.entries i).Pairwise fun e e' => e.order < e'.order := by
  rw [entries, List.pairwise_map, ← List.pairwise_map (f := Prod.snd), List.zipIdx_map_snd]
  exact List.pairwise_lt_range'

end Forest

/-- The buckets of a node hold the nodes that it takes. -/
theorem spread_buckets (o : Options) (canvas : SceneNode) (i : Nat) :
    let f := (NormalizedScene.ofCanvas o canvas).forest
    (f.buckets i).Spread f (f.members i) := by
  intro f
  have ht : f.Tidy := NormalizedScene.tidy_ofCanvas o canvas
  have hentries : (f.members i).zipIdx.map (fun (node, order) => ⟨node, order⟩) = f.entries i := by
    rw [← Forest.flattened_eq_members ht, Forest.entries]
  constructor
  · rw [hentries]
    exact f.perm_buckets i
  · rw [← Forest.node_turns]
    exact Forest.nodup_turns ht i
  · intro order c hc
    rw [← Forest.flattened_eq_members ht] at hc
    have hentry : (⟨c, order⟩ : ChildEntry) ∈ f.entries i :=
      List.mem_map_of_mem (List.mk_mem_zipIdx_iff_getElem?.2 hc)
    obtain ⟨node, found, hvertical⟩ := Forest.exists_verticalOf (List.mem_of_getElem? hc)
    refine ⟨node, found, ?_, ?_, ?_⟩
    · simp [Forest.buckets, Forest.mem_sortByTop_filter, hentry, hvertical]
    · simp [Forest.buckets, Forest.mem_sortByTop_filter, hentry, hvertical]
    · simp [Forest.buckets, hentry, hvertical]
  · exact Forest.pairwise_sortByTop ((f.pairwise_entries i).filter _)
  · exact (f.pairwise_entries i).filter _
  · exact Forest.pairwise_sortByTop ((f.pairwise_entries i).filter _)

end DesignCompiler

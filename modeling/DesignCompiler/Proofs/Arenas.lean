import Mathlib.Order.Bounds.Basic
import DesignCompiler.Proofs.Matching

namespace DesignCompiler

namespace NodeTree

structure Addition where
  attrs : NodeAttributes
  kind : NodeType
  constraints : Constraints
  params : Params
  parent : Option Nat

def Addition.node (a : Addition) (index : Nat) : Node :=
  { index, attrs := a.attrs, kind := a.kind, constraints := a.constraints, params := a.params
    parent := a.parent }

inductive Edit
  | push (a : Addition)
  | setMask (target mask : Nat)

namespace Edit

def apply (t : NodeTree) : Edit → NodeTree
  | .push a => t.push a.attrs a.kind a.constraints a.params a.parent
  | .setMask target mask => t.setMask target mask

def returned (t : NodeTree) : Edit → List Nat
  | .push _ => [t.size]
  | .setMask .. => []

def additions : Edit → List Addition
  | .push a => [a]
  | .setMask .. => []

end Edit

def run (t : NodeTree) (edits : List Edit) : NodeTree := edits.foldl Edit.apply t

/-- Each new node has a parent that was returned before, be it one of `ids`. -/
def Grants (t : NodeTree) (ids : List Nat) : List Edit → Prop
  | [] => True
  | e :: rest =>
    (∀ a ∈ e.additions, ∀ p ∈ a.parent, p ∈ ids) ∧ Grants (e.apply t) (ids ++ e.returned t) rest

/-- A forest of some nodes, in the order in which they were added. -/
structure IsForest (added : List Addition) (t : NodeTree) : Prop where
  bares_eq : t.bares = added.mapIdx fun i a => a.node i
  index_eq : ∀ i n, t.get? i = some n → n.index = i
  parent_lt : ∀ c p, t.parent? c = some p → p < c
  mem_children_iff : ∀ p c, c ∈ t.children p ↔ t.parent? c = some p
  perm : (t.roots ++ (List.range t.size).flatMap t.children).Perm (List.range t.size)
  roots_sorted : t.roots.Pairwise (· < ·)
  children_sorted : ∀ p, (t.children p).Pairwise (· < ·)
  previous_iff : ∀ c s, t.previousSibling? c = some s ↔
    ∃ p, t.parent? c = some p ∧ IsGreatest {x | t.parent? x = some p ∧ x < c} s
  previous_first : ∀ p c rest, t.children p = c :: rest → t.previousSibling? c = none
  previous_root : ∀ c ∈ t.roots, t.previousSibling? c = none
  find_iff : ∀ id i, t.find? id = some i ↔
    IsGreatest {j | ∃ a, added[j]? = some a ∧ a.attrs.id = id} i

/-- Nothing but the links of a mask and of its target changed, and that only if both are there. -/
def Relinks (target mask : Nat) (t u : NodeTree) : Prop :=
  if target < t.size ∧ mask < t.size then
    u.roots = t.roots ∧ ∀ i, u.get? i = (t.get? i).map fun n =>
      { n with mask := if i = target then some mask else n.mask
               masked := if i = mask then some target else n.masked }
  else u = t

variable {t : NodeTree} {added : List Addition}

/-- The links to parents lead upwards, and those to children go back along them. -/
structure Grown (added : List Addition) (t : NodeTree) : Prop where
  bares_eq : t.bares = added.mapIdx fun i a => a.node i
  linksBack : t.LinksBack
  parent_lt : ∀ c p, t.parent? c = some p → p < c

namespace Grown

theorem empty : Grown [] {} where
  bares_eq := rfl
  linksBack := .empty
  parent_lt c p h := by simp [parent?, get?] at h

theorem size_eq (h : t.Grown added) : t.size = added.length := by
  rw [← length_bares, h.bares_eq, List.length_mapIdx]

theorem push (h : t.Grown added) {a : Addition} (hp : ∀ p ∈ a.parent, p < t.size) :
    (t.push a.attrs a.kind a.constraints a.params a.parent).Grown (added ++ [a]) where
  bares_eq := by
    rw [bares_push, h.bares_eq, List.mapIdx_concat, h.size_eq]
    rfl
  linksBack := h.linksBack.push hp
  parent_lt c p hc := by
    rcases Nat.lt_trichotomy c t.size with hlt | rfl | hgt
    · rw [parent?_push_of_lt hlt] at hc
      exact h.parent_lt c p hc
    · rw [parent?_push_size] at hc
      exact hp p hc
    · have hle := lt_size_of_parent? hc
      rw [size_push] at hle
      omega

theorem setMask (h : t.Grown added) (target mask : Nat) : (t.setMask target mask).Grown added where
  bares_eq := by rw [bares_setMask, h.bares_eq]
  linksBack := h.linksBack.setMask target mask
  parent_lt c p hc := by
    rw [parent?_setMask] at hc
    exact h.parent_lt c p hc

theorem apply (h : t.Grown added) {e : Edit} (hp : ∀ a ∈ e.additions, ∀ p ∈ a.parent, p < t.size) :
    (e.apply t).Grown (added ++ e.additions) := by
  cases e with
  | push a => exact h.push (hp a List.mem_cons_self)
  | setMask target mask =>
      rw [Edit.additions, List.append_nil]
      exact h.setMask target mask

end Grown

theorem range_append_returned (t : NodeTree) (e : Edit) :
    List.range t.size ++ e.returned t = List.range (e.apply t).size := by
  cases e with
  | push a => rw [Edit.apply, size_push, List.range_succ, Edit.returned]
  | setMask target mask => rw [Edit.apply, size_setMask, Edit.returned, List.append_nil]

theorem Grown.run (h : t.Grown added) {edits : List Edit} (hg : t.Grants (List.range t.size) edits) :
    (t.run edits).Grown (added ++ edits.flatMap Edit.additions) := by
  induction edits generalizing t added with
  | nil => simpa [NodeTree.run] using h
  | cons e rest ih =>
      obtain ⟨hparent, hrest⟩ := hg
      rw [range_append_returned] at hrest
      have hnext := h.apply fun a ha p hp => List.mem_range.1 (hparent a ha p hp)
      rw [List.flatMap_cons, ← List.append_assoc]
      exact ih hnext hrest

theorem exists_split_iff {l : List Nat} (hl : l.Pairwise (· < ·)) {s c : Nat} :
    (∃ before after, l = before ++ s :: c :: after) ↔ c ∈ l ∧ IsGreatest {x | x ∈ l ∧ x < c} s := by
  constructor
  · rintro ⟨before, after, rfl⟩
    simp only [List.pairwise_append, List.pairwise_cons] at hl
    obtain ⟨-, ⟨hs, hc, -⟩, hbefore⟩ := hl
    refine ⟨by simp, ⟨by simp, hs c List.mem_cons_self⟩, ?_⟩
    rintro x ⟨hx, hlt⟩
    rcases List.mem_append.1 hx with hx | hx
    · exact Nat.le_of_lt (hbefore x hx s List.mem_cons_self)
    · rcases List.mem_cons.1 hx with rfl | hx
      · exact Nat.le_refl _
      · rcases List.mem_cons.1 hx with rfl | hx
        · exact absurd hlt (Nat.lt_irrefl _)
        · exact absurd hlt (Nat.lt_asymm (hc x hx))
  · rintro ⟨hc, ⟨hs, hlt⟩, hgreatest⟩
    obtain ⟨before, after, rfl⟩ := List.append_of_mem hc
    simp only [List.pairwise_append, List.pairwise_cons] at hl
    obtain ⟨hsorted, ⟨hafter, -⟩, hbefore⟩ := hl
    have hsb : s ∈ before := by
      rcases List.mem_append.1 hs with hs | hs
      · exact hs
      · rcases List.mem_cons.1 hs with rfl | hs
        · exact absurd hlt (Nat.lt_irrefl _)
        · exact absurd hlt (Nat.lt_asymm (hafter s hs))
    obtain ⟨before, z, rfl⟩ := (List.eq_nil_or_concat' before).resolve_left (List.ne_nil_of_mem hsb)
    -- The item at the end of `before` is below `c` too, and no item before it is as great.
    have hz : z ≤ s := hgreatest ⟨by simp, hbefore z (by simp) c List.mem_cons_self⟩
    rw [List.pairwise_append] at hsorted
    rcases List.mem_append.1 hsb with hsb | hsb
    · exact absurd hz (Nat.not_le_of_lt (hsorted.2.2 s hsb z List.mem_cons_self))
    · rw [List.mem_singleton.1 hsb]
      exact ⟨before, after, by simp⟩

namespace LinksBack

variable (h : t.LinksBack)
include h

theorem mem_children_iff (p c : Nat) : c ∈ t.children p ↔ t.parent? c = some p := by
  rw [h.children_eq, List.mem_filter, List.mem_range, decide_eq_true_iff]
  exact and_iff_right_of_imp lt_size_of_parent?

theorem mem_roots_iff (c : Nat) : c ∈ t.roots ↔ c < t.size ∧ t.parent? c = none := by
  rw [h.roots_eq, List.mem_filter, List.mem_range, decide_eq_true_iff]

theorem children_sorted (p : Nat) : (t.children p).Pairwise (· < ·) := by
  rw [h.children_eq]
  exact List.pairwise_lt_range.filter _

theorem roots_sorted : t.roots.Pairwise (· < ·) := by
  rw [h.roots_eq]
  exact List.pairwise_lt_range.filter _

theorem nodup_listed : (t.roots ++ (List.range t.size).flatMap t.children).Nodup := by
  refine List.nodup_append.2 ⟨h.roots_sorted.imp Nat.ne_of_lt, ?_, ?_⟩
  · refine List.nodup_flatMap.2 ⟨fun p _ => (h.children_sorted p).imp Nat.ne_of_lt, ?_⟩
    -- A node in two lists would have two parents.
    refine List.nodup_range.imp fun hne c hc hc' => hne ?_
    exact Option.some.inj (((h.mem_children_iff _ c).1 hc).symm.trans ((h.mem_children_iff _ c).1 hc'))
  · rintro c hc c' hc' rfl
    obtain ⟨p, -, hp⟩ := List.mem_flatMap.1 hc'
    rw [h.mem_children_iff, ((h.mem_roots_iff c).1 hc).2] at hp
    cases hp

theorem perm_listed (hlt : ∀ c p, t.parent? c = some p → p < c) :
    (t.roots ++ (List.range t.size).flatMap t.children).Perm (List.range t.size) := by
  refine (List.perm_ext_iff_of_nodup h.nodup_listed List.nodup_range).2 fun c => ?_
  rw [List.mem_append, h.mem_roots_iff, List.mem_flatMap, List.mem_range]
  constructor
  · rintro (⟨hc, -⟩ | ⟨p, -, hp⟩)
    · exact hc
    · exact lt_size_of_parent? ((h.mem_children_iff p c).1 hp)
  · intro hc
    cases hp : t.parent? c with
    | none => exact .inl ⟨hc, rfl⟩
    | some p =>
        have hpc := hlt c p hp
        exact .inr ⟨p, List.mem_range.2 (by omega), (h.mem_children_iff p c).2 hp⟩

end LinksBack

section Nodes

variable (h : t.bares = added.mapIdx fun i a => a.node i)
include h

theorem exists_addition {i : Nat} {n : Node} (found : t.get? i = some n) :
    ∃ a, added[i]? = some a ∧ n.bare = a.node i := by
  have hbare := t.getElem?_bares i
  rw [found, h, List.getElem?_mapIdx, Option.map_some, Option.map_eq_some_iff] at hbare
  obtain ⟨a, ha, hn⟩ := hbare
  exact ⟨a, ha, hn.symm⟩

theorem exists_node_of_addition {i : Nat} {a : Addition} (ha : added[i]? = some a) :
    ∃ n, t.get? i = some n ∧ n.bare = a.node i := by
  have hbare := t.getElem?_bares i
  rw [h, List.getElem?_mapIdx, ha, Option.map_some, eq_comm, Option.map_eq_some_iff] at hbare
  exact hbare

theorem index_eq_of_bares {i : Nat} {n : Node} (found : t.get? i = some n) : n.index = i := by
  obtain ⟨a, -, hn⟩ := exists_addition h found
  exact congrArg Node.index hn

theorem isGreatest_of_find? {id : String} {i : Nat} (hi : t.find? id = some i) :
    IsGreatest {j | ∃ a, added[j]? = some a ∧ a.attrs.id = id} i := by
  obtain ⟨n, hn, rfl⟩ := Option.map_eq_some_iff.1 hi
  obtain ⟨hid, before, after, hsplit, hbefore⟩ := List.find?_eq_some_iff_append.1 hn
  -- The search goes from the last node to the first.
  have hnodes : t.nodes.toList = after.reverse ++ n :: before.reverse := by
    rw [← List.reverse_reverse t.nodes.toList, hsplit]
    simp
  have hget : ∀ j, t.get? j = (after.reverse ++ n :: before.reverse)[j]? := by
    intro j
    rw [get?, ← Array.getElem?_toList, hnodes]
  have hself : t.get? after.reverse.length = some n := by rw [hget]; simp
  obtain ⟨a, ha, hna⟩ := exists_addition h hself
  rw [index_eq_of_bares h hself]
  refine ⟨⟨a, ha, ?_⟩, ?_⟩
  · rw [← of_decide_eq_true hid]
    exact congrArg (·.attrs.id) hna.symm
  · rintro j ⟨b, hb, hbid⟩
    obtain ⟨m, hm, hmb⟩ := exists_node_of_addition h hb
    refine Nat.le_of_not_lt fun hlt => ?_
    obtain ⟨k, rfl⟩ := Nat.exists_eq_add_of_lt hlt
    have hmem : m ∈ before := by
      rw [hget, List.getElem?_append_right (by omega), Nat.add_assoc, Nat.add_sub_cancel_left,
        List.getElem?_cons_succ] at hm
      exact List.mem_reverse.1 (List.mem_of_getElem? hm)
    have hmid : m.attrs.id = id := (congrArg (·.attrs.id) hmb).trans hbid
    simpa [hmid] using hbefore m hmem

theorem find?_eq_some_iff {id : String} {i : Nat} :
    t.find? id = some i ↔ IsGreatest {j | ∃ a, added[j]? = some a ∧ a.attrs.id = id} i := by
  refine ⟨isGreatest_of_find? h, fun hi => ?_⟩
  obtain ⟨a, ha, hid⟩ := hi.1
  obtain ⟨n, found, hn⟩ := exists_node_of_addition h ha
  have hsome : (t.find? id).isSome := by
    rw [find?, Option.isSome_map, List.find?_isSome]
    refine ⟨n, List.mem_reverse.2 (List.mem_of_getElem? (i := i) ?_), decide_eq_true ?_⟩
    · rw [Array.getElem?_toList]
      exact found
    · exact (congrArg (·.attrs.id) hn).trans hid
  obtain ⟨j, hj⟩ := Option.isSome_iff_exists.1 hsome
  rw [hj, (isGreatest_of_find? h hj).unique hi]

end Nodes

theorem Grown.tidy (h : t.Grown added) : t.Tidy where
  linked p c hc := (h.linksBack.mem_children_iff p c).1 hc
  nodup_children p := (h.linksBack.children_sorted p).imp Nat.ne_of_lt
  index_eq _ _ found := index_eq_of_bares h.bares_eq found

theorem Grown.previousSibling?_eq_some_iff (h : t.Grown added) {c s : Nat} :
    t.previousSibling? c = some s ↔
      ∃ p, t.parent? c = some p ∧ IsGreatest {x | t.parent? x = some p ∧ x < c} s := by
  rw [h.tidy.previousSibling?_eq_some_iff]
  refine exists_congr fun p => ?_
  rw [Follows, exists_split_iff (h.linksBack.children_sorted p)]
  simp only [h.linksBack.mem_children_iff]

theorem Grown.isForest (h : t.Grown added) : t.IsForest added where
  bares_eq := h.bares_eq
  index_eq _ _ found := index_eq_of_bares h.bares_eq found
  parent_lt := h.parent_lt
  mem_children_iff := h.linksBack.mem_children_iff
  perm := h.linksBack.perm_listed h.parent_lt
  roots_sorted := h.linksBack.roots_sorted
  children_sorted := h.linksBack.children_sorted
  previous_iff _ _ := h.previousSibling?_eq_some_iff
  previous_first p c rest hc := by
    refine Option.eq_none_iff_forall_ne_some.2 fun s hs => ?_
    obtain ⟨q, hq⟩ := h.tidy.previousSibling?_eq_some_iff.1 hs
    exact h.tidy.not_follows_of_head hc hq
  previous_root c hc := by rw [previousSibling?, ((h.linksBack.mem_roots_iff c).1 hc).2]; rfl
  find_iff _ _ := find?_eq_some_iff h.bares_eq

theorem relinks_setMask (t : NodeTree) (target mask : Nat) :
    t.Relinks target mask (t.setMask target mask) := by
  unfold Relinks
  split
  · next hboth =>
    rw [NodeTree.setMask, if_pos hboth]
    refine ⟨rfl, fun i => ?_⟩
    simp only [get?, Array.getElem?_modify, eq_comm (a := i)]
    split
    · split
      · rw [Option.map_map]
        rfl
      · rfl
    · split
      · rfl
      · exact Option.map_id'.symm
  · next hboth => rw [NodeTree.setMask, if_neg hboth]

end NodeTree

/-- Calls that give new nodes only parents that were returned make a forest of these nodes, and a mask
that is linked in it changes no other links. -/
theorem isForest_run {edits : List NodeTree.Edit} (hg : NodeTree.Grants {} [] edits) :
    (NodeTree.run {} edits).IsForest (edits.flatMap NodeTree.Edit.additions) ∧
      ∀ target mask, (NodeTree.run {} edits).Relinks target mask
        ((NodeTree.run {} edits).setMask target mask) :=
  ⟨(NodeTree.Grown.empty.run hg).isForest, NodeTree.relinks_setMask _⟩

def maskedPhoto : List NodeTree.Edit :=
  let add (id : String) (parent : Option Nat) : NodeTree.Edit :=
    .push ⟨{ id, name := id }, .frame, {}, [], parent⟩
  [add "card" none, add "photo" (some 0), add "card" none, add "cut" (some 0), .setMask 1 3, .setMask 1 7]

theorem isForest_maskedPhoto :
    NodeTree.Grants {} [] maskedPhoto ∧
      (NodeTree.run {} maskedPhoto).IsForest (maskedPhoto.flatMap NodeTree.Edit.additions) ∧
      (NodeTree.run {} maskedPhoto).previousSibling? 3 = some 1 ∧
      (NodeTree.run {} maskedPhoto).find? "card" = some 2 := by
  have hg : NodeTree.Grants {} [] maskedPhoto := by
    simp [maskedPhoto, NodeTree.Grants, NodeTree.Edit.additions, NodeTree.Edit.returned, NodeTree.Edit.apply,
      NodeTree.size]
  exact ⟨hg, (isForest_run hg).1, by decide, by decide⟩

end DesignCompiler

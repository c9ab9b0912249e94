import DesignCompiler.Decimal.Binary
import DesignCompiler.Tree

namespace DesignCompiler

namespace Forest

variable (f : Forest)

/-- The children of a node without groups and without masks that a sibling takes, in document
order. -/
def flattened (i : Nat) : List Nat :=
  (f.children i).attach.flatMap fun ⟨c, hc⟩ =>
    match f.get? c with
    | none => []
    | some child =>
      if child.kind.isGroupFamily then
        have := f.ordered i c hc
        have := NodeTree.lt_size_of_mem_children hc
        flattened c
      else if child.masked.isSome then []
      else [c]
termination_by f.size - i

theorem lt_of_mem_flattened {i c : Nat} (h : c ∈ f.flattened i) : i < c := by
  induction i using flattened.induct f with
  | case1 i ih =>
    rw [flattened, List.mem_flatMap] at h
    obtain ⟨⟨d, hd⟩, -, hc⟩ := h
    have hid := f.ordered i d hd
    dsimp only at hc
    split at hc
    · simp at hc
    · next child _ =>
      split at hc
      · next hg => exact Nat.lt_trans hid (ih d hd hc)
      · split at hc
        · simp at hc
        · simp at hc
          omega

end Forest

structure ChildEntry where
  node : Nat
  order : Nat
  deriving Repr, DecidableEq

/-- Children by the edge that they hang from. Those at the top and those at the bottom are sorted by their upper edge;
the others stand between them in document order. -/
structure Buckets where
  min : List ChildEntry := []
  center : List ChildEntry := []
  max : List ChildEntry := []
  deriving Repr, DecidableEq

def Buckets.isEmpty (b : Buckets) : Bool := b.min.isEmpty && b.center.isEmpty && b.max.isEmpty

def Buckets.length (b : Buckets) : Nat := b.min.length + b.center.length + b.max.length

/-- The place of a double in the total order of all doubles, where negative zero is below zero. -/
def totalKey (x : Float) : Int :=
  let bits := x.toBits.toNat
  if bits < Nat.pow 2 63 then bits else Nat.pow 2 63 - 1 - bits

namespace Forest

variable (f : Forest)

def entries (i : Nat) : List ChildEntry := (f.flattened i).zipIdx.map fun (node, order) => ⟨node, order⟩

def topOf (i : Nat) : Float := ((f.get? i).map fun n => n.absoluteBox.y).getD 0

def verticalOf (i : Nat) : VerticalConstraint :=
  ((f.get? i).map fun n => n.constraints.vertical).getD .top

/-- Entries from the highest to the lowest; those of one height stay as they are. -/
def sortByTop (entries : List ChildEntry) : List ChildEntry :=
  entries.mergeSort fun a b => totalKey (f.topOf a.node) ≤ totalKey (f.topOf b.node)

def buckets (i : Nat) : Buckets :=
  let entries := f.entries i
  let hanging (vertical : VerticalConstraint) :=
    entries.filter fun e => f.verticalOf e.node = vertical
  { min := f.sortByTop (hanging .top)
    center := entries.filter fun e => f.verticalOf e.node ≠ .top ∧ f.verticalOf e.node ≠ .bottom
    max := f.sortByTop (hanging .bottom) }

end Forest

/-- A child that is to be drawn, and the child of its stack that is drawn before it. -/
structure Turn where
  node : Nat
  previous : Option Nat
  order : Nat
  deriving Repr, DecidableEq

def Turn.stack (previous : Option Nat) : List ChildEntry → List Turn
  | [] => []
  | e :: rest => ⟨e.node, previous, e.order⟩ :: stack (some e.node) rest

def Turn.single (e : ChildEntry) : Turn := ⟨e.node, none, e.order⟩

theorem Turn.node_of_mem_stack {previous : Option Nat} {entries : List ChildEntry} {t : Turn}
    (h : t ∈ stack previous entries) : ∃ e ∈ entries, e.node = t.node := by
  induction entries generalizing previous with
  | nil => simp [stack] at h
  | cons e rest ih =>
    rcases List.mem_cons.1 h with rfl | h
    · exact ⟨e, by simp, rfl⟩
    · obtain ⟨e', he', hn⟩ := ih h
      exact ⟨e', by simp [he'], hn⟩

def Buckets.turns (b : Buckets) : List Turn :=
  Turn.stack none b.min ++ b.center.map Turn.single ++ Turn.stack none b.max

namespace Forest

variable (f : Forest)

theorem node_mem_flattened_of_mem_entries {i : Nat} {e : ChildEntry} (h : e ∈ f.entries i) :
    e.node ∈ f.flattened i := by
  obtain ⟨⟨c, k⟩, hm, rfl⟩ := List.mem_map.1 h
  exact List.fst_mem_of_mem_zipIdx hm

theorem mem_entries_of_mem_turns {i : Nat} {t : Turn} (h : t ∈ (f.buckets i).turns) :
    ∃ e ∈ f.entries i, e.node = t.node := by
  simp only [Buckets.turns, List.mem_append, buckets] at h
  rcases h with (h | h) | h
  · obtain ⟨e, he, hn⟩ := Turn.node_of_mem_stack h
    exact ⟨e, (List.mem_filter.1 ((List.mergeSort_perm ..).mem_iff.1 he)).1, hn⟩
  · obtain ⟨e, he, rfl⟩ := List.mem_map.1 h
    exact ⟨e, (List.mem_filter.1 he).1, rfl⟩
  · obtain ⟨e, he, hn⟩ := Turn.node_of_mem_stack h
    exact ⟨e, (List.mem_filter.1 ((List.mergeSort_perm ..).mem_iff.1 he)).1, hn⟩

theorem lt_of_mem_turns {i : Nat} {t : Turn} (h : t ∈ (f.buckets i).turns) : i < t.node := by
  obtain ⟨e, he, hn⟩ := f.mem_entries_of_mem_turns h
  exact hn ▸ f.lt_of_mem_flattened (f.node_mem_flattened_of_mem_entries he)

end Forest

end DesignCompiler

import Mathlib.Data.List.Basic
import Mathlib.Logic.Relation
import DesignCompiler.Tree.Normalize

namespace DesignCompiler

open Relation

namespace SceneNode

variable {node : SceneNode} {pair : Constraints}

/-- All that a layer shows are shapes with one pair of constraints, and it is no component. -/
def Shares (node : SceneNode) (pair : Constraints) : Prop :=
  node.attrs.isComponentRoot = false ∧ visibleChildren node.children ≠ [] ∧
    ∀ c ∈ visibleChildren node.children,
      c.attrs.kind.isVectorFamily ∧ c.attrs.constraints.getD {} = pair

def IsVector (node : SceneNode) : Prop :=
  node.attrs.requiresRender ∨ node.attrs.kind.isVectorFamily ∨ ∃ pair, node.Shares pair

theorem sharedConstraints?_eq_some_iff {children : List SceneNode} :
    sharedConstraints? children = some pair ↔ children ≠ [] ∧
      ∀ c ∈ children, c.attrs.kind.isVectorFamily ∧ c.attrs.constraints.getD {} = pair := by
  cases children with
  | nil => simp [sharedConstraints?]
  | cons first rest =>
      simp only [sharedConstraints?, Option.ite_none_right_eq_some, Option.some.injEq, Bool.and_eq_true,
        List.all_eq_true, decide_eq_true_iff, List.forall_mem_cons]
      grind

theorem shared_eq_some_iff :
    (if node.attrs.isComponentRoot then none else sharedConstraints? (visibleChildren node.children)) =
      some pair ↔ node.Shares pair := by
  by_cases hroot : node.attrs.isComponentRoot
  · simp [Shares, hroot]
  · simp [Shares, hroot, sharedConstraints?_eq_some_iff]

theorem normalForm_of_shares (h : node.Shares pair) :
    normalForm node.attrs node.children = (.vector, pair) := by
  simp only [normalForm, shared_eq_some_iff.2 h]

theorem normalForm_of_not_shares (h : ∀ pair, ¬node.Shares pair) :
    normalForm node.attrs node.children =
      (if node.attrs.requiresRender || node.attrs.kind.isVectorFamily then .vector else node.attrs.kind,
        node.attrs.constraints.getD {}) := by
  have hnone := Option.eq_none_iff_forall_ne_some.2 fun pair => mt shared_eq_some_iff.1 (h pair)
  simp only [normalForm, hnone]
  split <;> rfl

theorem kind_normalForm_iff (node : SceneNode) :
    (normalForm node.attrs node.children).1 = .vector ↔ node.IsVector := by
  by_cases h : ∃ pair, node.Shares pair
  · obtain ⟨pair, hpair⟩ := h
    simp [normalForm_of_shares hpair, IsVector, show ∃ pair, node.Shares pair from ⟨pair, hpair⟩]
  · rw [normalForm_of_not_shares (not_exists.1 h)]
    simp only [IsVector, h, or_false]
    cases hkind : node.attrs.kind <;> simp [NodeType.isVectorFamily]

theorem kind_normalForm_of_not_isVector (h : ¬node.IsVector) :
    (normalForm node.attrs node.children).1 = node.attrs.kind := by
  simp only [IsVector, not_or] at h
  rw [normalForm_of_not_shares (not_exists.1 h.2.2)]
  simp [h.1, h.2.1]

end SceneNode

/-- A layer of a canvas and the positions, level by level, at which it is found. -/
structure Layer where
  address : List Nat
  node : SceneNode

namespace Layer

def visible (l : Layer) : List Layer :=
  (l.node.children.zipIdx.filter (·.1.attrs.visible)).map fun (c, k) => ⟨l.address ++ [k], c⟩

def Keeps (l c : Layer) : Prop := ¬l.node.IsVector ∧ c ∈ l.visible

end Layer

namespace SceneNode

def components (canvas : SceneNode) : List Layer :=
  (Layer.visible ⟨[], canvas⟩).filter (·.node.attrs.isComponentRoot)

/-- A layer is a component of a canvas or in one, and nothing around it there is hidden or a vector. -/
def Keeps (canvas : SceneNode) (l : Layer) : Prop :=
  ∃ root ∈ canvas.components, ReflTransGen Layer.Keeps root l

mutual

def layers (address : List Nat) : SceneNode → List Layer
  | ⟨attrs, children⟩ =>
    ⟨address, ⟨attrs, children⟩⟩ ::
      if (normalForm attrs children).1 = .vector then [] else layersOfAll address 0 children

def layersOfAll (address : List Nat) (k : Nat) : List SceneNode → List Layer
  | [] => []
  | c :: rest =>
    if c.attrs.visible then layers (address ++ [k]) c ++ layersOfAll address (k + 1) rest
    else layersOfAll address (k + 1) rest

end

def keptLayers (canvas : SceneNode) : List Layer :=
  canvas.components.flatMap fun l => l.node.layers l.address

theorem layersOfAll_eq (address : List Nat) (k : Nat) (nodes : List SceneNode) :
    layersOfAll address k nodes =
      ((nodes.zipIdx k).filter (·.1.attrs.visible)).flatMap fun (c, j) => c.layers (address ++ [j]) := by
  induction nodes generalizing k with
  | nil => rw [layersOfAll]; rfl
  | cons c rest ih =>
      rw [layersOfAll, List.zipIdx_cons, ih]
      by_cases h : c.attrs.visible <;> simp [h]

theorem layers_eq (l : Layer) :
    l.node.layers l.address =
      l :: if (normalForm l.node.attrs l.node.children).1 = .vector then []
        else l.visible.flatMap fun c => c.node.layers c.address := by
  obtain ⟨address, attrs, children⟩ := l
  rw [layers, layersOfAll_eq, Layer.visible, List.flatMap_map]

end SceneNode

namespace Layer

variable {l c d : Layer}

theorem exists_of_mem_visible (h : c ∈ l.visible) :
    c.node ∈ l.node.children ∧ c.node.attrs.visible ∧ ∃ k, c.address = l.address ++ [k] := by
  obtain ⟨⟨node, k⟩, hmem, rfl⟩ := List.mem_map.1 h
  obtain ⟨hmem, hvisible⟩ := List.mem_filter.1 hmem
  exact ⟨List.fst_mem_of_mem_zipIdx hmem, hvisible, k, rfl⟩

theorem induction_visible {motive : Layer → Prop} (step : ∀ l, (∀ c ∈ l.visible, motive c) → motive l)
    (l : Layer) : motive l := by
  induction hk : sizeOf l.node using Nat.strongRecOn generalizing l with
  | ind k ih =>
      subst hk
      refine step l fun c hc => ih _ ?_ c rfl
      have hlt := List.sizeOf_lt_of_mem (exists_of_mem_visible hc).1
      have hchildren : sizeOf l.node.children < sizeOf l.node := by
        cases l.node
        simp only [SceneNode.mk.sizeOf_spec]
        omega
      omega

theorem mem_layers_iff : c ∈ l.node.layers l.address ↔ ReflTransGen Keeps l c := by
  induction l using induction_visible with
  | step l ih =>
      rw [SceneNode.layers_eq, List.mem_cons, ReflTransGen.cases_head_iff, eq_comm]
      refine or_congr_right ?_
      split
      · next h => simp [Keeps, (SceneNode.kind_normalForm_iff _).1 h]
      · next h =>
        rw [List.mem_flatMap]
        refine exists_congr fun d => ?_
        rw [Keeps, ← SceneNode.kind_normalForm_iff, and_iff_right h]
        exact and_congr_right fun hd => ih d hd

theorem exists_address_of_keeps (h : ReflTransGen Keeps l c) : ∃ s, c.address = l.address ++ s := by
  induction h with
  | refl => exact ⟨[], by simp⟩
  | tail _ hc ih =>
      obtain ⟨s, hs⟩ := ih
      obtain ⟨-, -, k, hk⟩ := exists_of_mem_visible hc.2
      exact ⟨s ++ [k], by rw [hk, hs, List.append_assoc]⟩

theorem address_eq_of_keeps (hl : l.Keeps c) (hd : d.Keeps c) : l.address = d.address := by
  obtain ⟨-, -, k, hk⟩ := exists_of_mem_visible hl.2
  obtain ⟨-, -, k', hk'⟩ := exists_of_mem_visible hd.2
  exact (List.append_inj' (hk.symm.trans hk') rfl).1

/-- All at or below a layer comes before all at or below another one. -/
def Before (l l' : Layer) : Prop := ∀ s s', l.address ++ s < l'.address ++ s'

theorem pairwise_visible (l : Layer) : l.visible.Pairwise Before := by
  have hindices : l.node.children.zipIdx.Pairwise fun a b => a.2 < b.2 := by
    rw [← List.pairwise_map, List.zipIdx_map_snd]
    exact List.pairwise_lt_range'
  rw [visible, List.pairwise_map]
  refine (hindices.filter _).imp fun {a b} hlt s s' => ?_
  rw [List.append_assoc, List.append_assoc]
  exact List.append_left_lt (List.cons_lt_cons_iff.2 (.inl hlt))

theorem pairwise_address {ls : List Layer} (h : ls.Pairwise Before) :
    ls.Pairwise fun c d => c.address < d.address :=
  h.imp fun {c d} hlt => by simpa using hlt [] []

theorem pairwise_flatMap_layers {ls : List Layer} (hbefore : ls.Pairwise Before)
    (h : ∀ l ∈ ls, (l.node.layers l.address).Pairwise fun c d => c.address < d.address) :
    (ls.flatMap fun l => l.node.layers l.address).Pairwise fun c d => c.address < d.address := by
  refine List.pairwise_flatMap.2 ⟨h, hbefore.imp fun {l l'} hlt c hc d hd => ?_⟩
  obtain ⟨s, hs⟩ := exists_address_of_keeps (mem_layers_iff.1 hc)
  obtain ⟨s', hs'⟩ := exists_address_of_keeps (mem_layers_iff.1 hd)
  rw [hs, hs']
  exact hlt s s'

theorem pairwise_layers (l : Layer) :
    (l.node.layers l.address).Pairwise fun c d => c.address < d.address := by
  induction l using induction_visible with
  | step l ih =>
      have hbelow := pairwise_flatMap_layers l.pairwise_visible ih
      rw [SceneNode.layers_eq]
      split
      · exact List.pairwise_singleton ..
      · refine List.pairwise_cons.2 ⟨fun c hc => ?_, hbelow⟩
        obtain ⟨d, hd, hc⟩ := List.mem_flatMap.1 hc
        obtain ⟨s, hs⟩ := exists_address_of_keeps (mem_layers_iff.1 hc)
        obtain ⟨-, -, k, hk⟩ := exists_of_mem_visible hd
        rw [hs, hk, List.append_assoc]
        nth_rewrite 1 [← List.append_nil l.address]
        exact List.append_left_lt (List.nil_lt_cons ..)

end Layer

namespace SceneNode

variable {canvas : SceneNode} {l : Layer}

theorem components_eq (canvas : SceneNode) :
    canvas.components = (canvas.children.zipIdx.filter fun c =>
      c.1.attrs.visible && c.1.attrs.isComponentRoot).map fun (c, k) => ⟨[k], c⟩ := by
  rw [components, Layer.visible, List.filter_map, List.filter_filter]
  simp [Bool.and_comm]

theorem keptLayers_eq (canvas : SceneNode) :
    canvas.keptLayers = (canvas.children.zipIdx.filter fun c =>
      c.1.attrs.visible && c.1.attrs.isComponentRoot).flatMap fun (c, k) => c.layers [k] := by
  rw [keptLayers, components_eq, List.flatMap_map]

theorem exists_address_of_components (h : l ∈ canvas.components) : ∃ k, l.address = [k] := by
  obtain ⟨-, -, k, hk⟩ := Layer.exists_of_mem_visible (List.mem_filter.1 h).1
  exact ⟨k, hk⟩

theorem Keeps.address_ne_nil (h : canvas.Keeps l) : l.address ≠ [] := by
  obtain ⟨root, hroot, hl⟩ := h
  obtain ⟨k, hk⟩ := exists_address_of_components hroot
  obtain ⟨s, hs⟩ := Layer.exists_address_of_keeps hl
  simp [hs, hk]

theorem Keeps.notMem_components {c : Layer} (h : canvas.Keeps l) (hc : l.Keeps c) :
    c ∉ canvas.components := by
  intro hmem
  obtain ⟨k, hk⟩ := exists_address_of_components hmem
  obtain ⟨-, -, k', hk'⟩ := Layer.exists_of_mem_visible hc.2
  rw [hk, eq_comm, List.append_eq_singleton_iff] at hk'
  simp [h.address_ne_nil] at hk'

theorem Keeps.tail {c : Layer} (h : canvas.Keeps l) (hc : l.Keeps c) : canvas.Keeps c := by
  obtain ⟨root, hroot, hl⟩ := h
  exact ⟨root, hroot, hl.tail hc⟩

theorem mem_keptLayers_iff : l ∈ canvas.keptLayers ↔ canvas.Keeps l := by
  rw [keptLayers, List.mem_flatMap, Keeps]
  exact exists_congr fun root => and_congr_right fun _ => Layer.mem_layers_iff

theorem pairwise_components (canvas : SceneNode) :
    canvas.components.Pairwise fun c d => c.address < d.address :=
  Layer.pairwise_address ((Layer.pairwise_visible _).filter _)

theorem pairwise_keptLayers (canvas : SceneNode) :
    canvas.keptLayers.Pairwise fun c d => c.address < d.address :=
  Layer.pairwise_flatMap_layers ((Layer.pairwise_visible _).filter _) fun l _ => l.pairwise_layers

end SceneNode

end DesignCompiler

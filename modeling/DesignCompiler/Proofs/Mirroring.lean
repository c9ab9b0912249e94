import Mathlib.Data.List.Nodup
import Mathlib.Data.Option.Basic
import DesignCompiler.Proofs.Collection
import DesignCompiler.Proofs.Layers

namespace DesignCompiler

open Relation

namespace NodeTree

variable {t : NodeTree} {attrs : NodeAttributes} {kind : NodeType} {constraints : Constraints}
  {params : Params} {parent : Option Nat}

/-- The links to children and the roots follow from the links to parents. -/
structure LinksBack (t : NodeTree) : Prop where
  children_eq : ∀ i, t.children i = (List.range t.size).filter fun c => t.parent? c = some i
  roots_eq : t.roots = (List.range t.size).filter fun c => t.parent? c = none

theorem LinksBack.empty : LinksBack {} where
  children_eq i := by simp [children, get?, size]
  roots_eq := by simp [size]

theorem filter_parent?_push (link : Option Nat) :
    ((List.range (t.size + 1)).filter fun c =>
        (t.push attrs kind constraints params parent).parent? c = link) =
      ((List.range t.size).filter fun c => t.parent? c = link) ++ if parent = link then [t.size] else [] := by
  have hold : (List.range t.size).filter (fun c =>
      (t.push attrs kind constraints params parent).parent? c = link) =
        (List.range t.size).filter fun c => t.parent? c = link := by
    refine List.filter_congr fun c hc => ?_
    rw [parent?_push_of_lt (List.mem_range.1 hc)]
  rw [List.range_succ, List.filter_append, hold]
  simp [List.filter_cons, parent?_push_size]

theorem LinksBack.push (h : t.LinksBack) (hp : ∀ p ∈ parent, p < t.size) :
    (t.push attrs kind constraints params parent).LinksBack where
  children_eq i := by
    rw [children_push, size_push, filter_parent?_push, ← h.children_eq]
    by_cases hi : parent = some i
    · have hlt := hp i hi
      simp [hi, Nat.le_of_lt hlt]
    · simp [hi]
  roots_eq := by
    have hroots : (t.push attrs kind constraints params parent).roots =
        t.roots ++ if parent = none then [t.size] else [] := by
      cases parent <;> simp [NodeTree.push]
    rw [hroots, size_push, filter_parent?_push, ← h.roots_eq]

theorem LinksBack.setMask (h : t.LinksBack) (target mask : Nat) : (t.setMask target mask).LinksBack where
  children_eq i := by
    simp only [children_setMask, size_setMask, parent?_setMask]
    exact h.children_eq i
  roots_eq := by
    have hroots : (t.setMask target mask).roots = t.roots := by
      unfold NodeTree.setMask
      split <;> rfl
    simp only [hroots, size_setMask, parent?_setMask]
    exact h.roots_eq

end NodeTree

def Node.bare (n : Node) : Node := { n with children := [], mask := none, masked := none }

namespace NodeTree

variable {t : NodeTree}

theorem map_bare_modify (nodes : Array Node) (i : Nat) {f : Node → Node} (hf : ∀ n, (f n).bare = n.bare) :
    (nodes.modify i f).toList.map Node.bare = nodes.toList.map Node.bare := by
  refine List.ext_getElem? fun j => ?_
  simp only [List.getElem?_map, Array.getElem?_toList, Array.getElem?_modify]
  split
  · rw [Option.map_map]
    exact congrArg (Option.map · _) (funext hf)
  · rfl

def bares (t : NodeTree) : List Node := t.nodes.toList.map Node.bare

theorem length_bares (t : NodeTree) : t.bares.length = t.size := by
  rw [bares, List.length_map, Array.length_toList, size]

theorem getElem?_bares (t : NodeTree) (i : Nat) : t.bares[i]? = (t.get? i).map Node.bare := by
  rw [bares, List.getElem?_map, Array.getElem?_toList, get?]

theorem bares_push (attrs : NodeAttributes) (kind : NodeType) (constraints : Constraints) (params : Params)
    (parent : Option Nat) : (t.push attrs kind constraints params parent).bares =
      t.bares ++ [{ index := t.size, attrs, kind, constraints, params, parent }] := by
  have hpushed : ∀ node : Node, (t.nodes.push node).toList.map Node.bare = t.bares ++ [node.bare] := by
    intro node
    rw [Array.toList_push, List.map_append, bares, List.map_singleton]
  cases parent with
  | none => exact hpushed _
  | some p =>
      rw [push, bares, map_bare_modify]
      · exact hpushed _
      · exact fun _ => rfl

theorem bares_setMask (target mask : Nat) : (t.setMask target mask).bares = t.bares := by
  unfold setMask
  split
  · rw [bares, map_bare_modify, map_bare_modify, bares]
    · exact fun _ => rfl
    · exact fun _ => rfl
  · rfl

end NodeTree

theorem Draft.bares_linkMask (mask : Nat) (id : String) (d : Draft) :
    (d.linkMask mask id).tree.bares = d.tree.bares := by
  unfold linkMask
  split
  · exact NodeTree.bares_setMask ..
  · rfl

namespace Layer

def bare (o : Options) (index : Nat) (parent : Option Nat) (l : Layer) : Node :=
  let (kind, constraints) := normalForm l.node.attrs l.node.children
  { index, attrs := l.node.attrs, kind, constraints, params := .parse o.delimiters l.node.attrs.name, parent }

/-- A layer is one of the roots, or is kept with the layer at the place of its parent. -/
def HangsFrom (roots layers : List Layer) (l : Layer) : Option Nat → Prop
  | none => l ∈ roots
  | some p => ∃ q, layers[p]? = some q ∧ q.Keeps l

theorem HangsFrom.append {roots layers : List Layer} {l : Layer} {parent : Option Nat}
    (h : l.HangsFrom roots layers parent) (more : List Layer) :
    l.HangsFrom roots (layers ++ more) parent := by
  cases parent with
  | none => exact h
  | some p =>
      obtain ⟨q, hq, hkeeps⟩ := h
      exact ⟨q, List.getElem?_append_left (List.getElem?_eq_some_iff.1 hq).1 ▸ hq, hkeeps⟩

end Layer

structure NodeTree.Lists (o : Options) (roots layers : List Layer) (t : NodeTree) : Prop where
  size_eq : t.size = layers.length
  bare : ∀ i (l : Layer), layers[i]? = some l →
    ∃ parent, t.bares[i]? = some (l.bare o i parent) ∧ l.HangsFrom roots layers parent

namespace NodeTree.Lists

variable {o : Options} {roots layers : List Layer} {t t' : NodeTree}

theorem congr (h : t.Lists o roots layers) (ht : t'.bares = t.bares) : t'.Lists o roots layers where
  size_eq := by rw [← length_bares, ht, length_bares, h.size_eq]
  bare := by rw [ht]; exact h.bare

theorem concat (h : t.Lists o roots layers) {l : Layer} {parent : Option Nat}
    (ht : t'.bares = t.bares ++ [l.bare o t.size parent]) (hparent : l.HangsFrom roots layers parent) :
    t'.Lists o roots (layers ++ [l]) where
  size_eq := by rw [← length_bares, ht, List.length_append, length_bares, h.size_eq, List.length_append]; rfl
  bare i l' hl' := by
    rw [ht]
    by_cases hi : i < layers.length
    · rw [List.getElem?_append_left hi] at hl'
      obtain ⟨parent', hbare, hparent'⟩ := h.bare i l' hl'
      have hlt : i < t.bares.length := by rwa [length_bares, h.size_eq]
      exact ⟨parent', by rwa [List.getElem?_append_left hlt], hparent'.append _⟩
    · rw [List.getElem?_append_right (Nat.le_of_not_lt hi), List.getElem?_singleton] at hl'
      split at hl'
      · next heq =>
        cases hl'
        obtain rfl : i = t.bares.length := by rw [length_bares, h.size_eq]; omega
        exact ⟨parent, by simp [length_bares], hparent.append _⟩
      · cases hl'

theorem exists_node (h : t.Lists o roots layers) {i : Nat} {l : Layer} (hl : layers[i]? = some l) :
    ∃ node, t.get? i = some node ∧ node.bare = l.bare o i node.parent ∧
      l.HangsFrom roots layers node.parent := by
  obtain ⟨parent, hbare, hparent⟩ := h.bare i l hl
  rw [getElem?_bares, Option.map_eq_some_iff] at hbare
  obtain ⟨node, found, hnode⟩ := hbare
  obtain rfl : node.parent = parent := congrArg Node.parent hnode
  exact ⟨node, found, hnode, hparent⟩

theorem hangsFrom (h : t.Lists o roots layers) {i : Nat} {l : Layer} (hl : layers[i]? = some l) :
    l.HangsFrom roots layers (t.parent? i) := by
  obtain ⟨node, found, -, hparent⟩ := h.exists_node hl
  rwa [parent?, found]

end NodeTree.Lists

namespace Draft

variable {o : Options} {roots : List Layer}

theorem lists_add {layers : List Layer} {d : Draft} {attrs : NodeAttributes} {children : List SceneNode}
    {address : List Nat} {parent : Option Nat} (h : d.tree.Lists o roots layers)
    (hp : Layer.HangsFrom roots layers ⟨address, ⟨attrs, children⟩⟩ parent) :
    (d.add o parent attrs (normalForm attrs children).1 (normalForm attrs children).2).tree.Lists o roots
      (layers ++ [⟨address, ⟨attrs, children⟩⟩]) :=
  h.concat (NodeTree.bares_push attrs _ _ _ parent) hp

mutual

theorem lists_addNode (parent : Option Nat) (node : SceneNode) (address : List Nat) {d : Draft}
    {layers : List Layer} (h : d.tree.Lists o roots layers)
    (hp : Layer.HangsFrom roots layers ⟨address, node⟩ parent) :
    (addNode o parent node d).tree.Lists o roots (layers ++ node.layers address) := by
  match node with
  | ⟨attrs, children⟩ =>
    have hadd := lists_add h hp
    have hself : (layers ++ [⟨address, ⟨attrs, children⟩⟩])[d.tree.size]? =
        some ⟨address, ⟨attrs, children⟩⟩ := by simp [h.size_eq]
    rw [addNode, SceneNode.layers]
    dsimp only
    split
    · exact hadd
    · next hkind =>
      have hvector : ¬SceneNode.IsVector ⟨attrs, children⟩ :=
        fun hvector => hkind ((SceneNode.kind_normalForm_iff ⟨attrs, children⟩).2 hvector)
      have hchildren := lists_addChildren d.tree.size children 0 hadd hself fun c j hc hvisible =>
        ⟨hvector, List.mem_map_of_mem (List.mem_filter.2 ⟨hc, hvisible⟩)⟩
      simpa using hchildren

theorem lists_addChildren (parent : Nat) (children : List SceneNode) (k : Nat) {d : Draft} {q : Layer}
    {layers : List Layer} (h : d.tree.Lists o roots layers) (hq : layers[parent]? = some q)
    (hc : ∀ c j, (c, j) ∈ children.zipIdx k → c.attrs.visible → q.Keeps ⟨q.address ++ [j], c⟩) :
    (addChildren o parent children d).tree.Lists o roots
      (layers ++ SceneNode.layersOfAll q.address k children) := by
  match children with
  | [] => simpa [addChildren, SceneNode.layersOfAll] using h
  | child :: rest =>
    have hrest : ∀ c j, (c, j) ∈ rest.zipIdx (k + 1) → c.attrs.visible → q.Keeps ⟨q.address ++ [j], c⟩ :=
      fun c j hmem => hc c j (List.zipIdx_cons ▸ List.mem_cons_of_mem _ hmem)
    rw [addChildren, SceneNode.layersOfAll]
    dsimp only
    split
    · next hvisible =>
      have hkeeps := hc child k (by simp) hvisible
      have hnode := lists_addNode (some parent) child (q.address ++ [k]) h ⟨q, hq, hkeeps⟩
      have hq' : (layers ++ child.layers (q.address ++ [k]))[parent]? = some q :=
        List.getElem?_append_left (List.getElem?_eq_some_iff.1 hq).1 ▸ hq
      rw [← List.append_assoc]
      split
      · exact lists_addChildren parent rest (k + 1) (hnode.congr (bares_linkMask ..)) hq' hrest
      · exact lists_addChildren parent rest (k + 1) hnode hq' hrest
    · exact lists_addChildren parent rest (k + 1) h hq hrest

end

theorem lists_addComponents (nodes : List SceneNode) (k : Nat) {d : Draft}
    {layers : List Layer} (h : d.tree.Lists o roots layers)
    (hroots : ∀ c j, (c, j) ∈ nodes.zipIdx k → c.attrs.visible → c.attrs.isComponentRoot →
      ⟨[j], c⟩ ∈ roots) :
    (addComponents o nodes d).tree.Lists o roots
      (layers ++ ((nodes.zipIdx k).filter fun c => c.1.attrs.visible && c.1.attrs.isComponentRoot).flatMap
        fun (c, j) => c.layers [j]) := by
  induction nodes generalizing k layers d with
  | nil => simpa [addComponents] using h
  | cons node rest ih =>
      have hrest : ∀ c j, (c, j) ∈ rest.zipIdx (k + 1) → c.attrs.visible → c.attrs.isComponentRoot →
          ⟨[j], c⟩ ∈ roots :=
        fun c j hmem => hroots c j (List.zipIdx_cons ▸ List.mem_cons_of_mem _ hmem)
      rw [addComponents, List.zipIdx_cons]
      split
      · next hnode =>
        have hboth := Bool.and_eq_true_iff.1 hnode
        have hadd := lists_addNode none node [k] h (hroots node k (by simp) hboth.1 hboth.2)
        simpa [hnode, hboth] using ih (k + 1) hadd hrest
      · next hnode => simpa [hnode] using ih (k + 1) h hrest

end Draft

theorem NormalizedScene.lists_ofCanvas (o : Options) (canvas : SceneNode) :
    (ofCanvas o canvas).tree.Lists o canvas.components canvas.keptLayers := by
  have hempty : ({} : Draft).tree.Lists o canvas.components [] := ⟨rfl, fun i l h => by simp at h⟩
  have hroots : ∀ c j, (c, j) ∈ canvas.children.zipIdx → c.attrs.visible → c.attrs.isComponentRoot →
      ⟨[j], c⟩ ∈ canvas.components := by
    intro c j hc hvisible hroot
    rw [SceneNode.components_eq]
    exact List.mem_map_of_mem (List.mem_filter.2 ⟨hc, by simp [hvisible, hroot]⟩)
  rw [SceneNode.keptLayers_eq]
  exact Draft.lists_addComponents canvas.children 0 hempty hroots

theorem NormalizedScene.linksBack_ofCanvas (o : Options) (canvas : SceneNode) :
    (ofCanvas o canvas).tree.LinksBack := by
  have hinvariant : Draft.Invariant o fun d => d.tree.LinksBack := by
    constructor
    · intro d h parent attrs children hp
      exact h.push hp
    · intro d h mask attrs kind _ _
      unfold Draft.linkMask
      split
      · exact h.setMask _ _
      · exact h
  exact hinvariant.addComponents canvas.children .empty

theorem note_eraseDups (item : String) (items : List String) :
    note item items.eraseDups = (items ++ [item]).eraseDups := by
  rw [List.eraseDups_append, note]
  by_cases h : item ∈ items <;> simp [h, List.removeAll, List.eraseDups_cons]

theorem foldl_note_eraseDups (refs items : List String) :
    refs.foldl (fun refs ref => note ref refs) items.eraseDups = (items ++ refs).eraseDups := by
  induction refs generalizing items with
  | nil => rw [List.append_nil, List.foldl_nil]
  | cons ref refs ih => rw [List.foldl_cons, note_eraseDups, ih, List.append_assoc, List.singleton_append]

namespace Draft

/-- The vectors and the pictures of the nodes of a draft, each at its first use. -/
structure Orders (d : Draft) : Prop where
  vectors : d.vectors = ((d.tree.bares.filter (·.kind = .vector)).map (·.attrs.id)).eraseDups
  images : d.images = (d.tree.bares.flatMap fun n => imageRefs n.attrs.fills).eraseDups

theorem Orders.add {d : Draft} (h : d.Orders) (o : Options) (parent : Option Nat) (attrs : NodeAttributes)
    (kind : NodeType) (constraints : Constraints) : (d.add o parent attrs kind constraints).Orders where
  vectors := by
    simp only [Draft.add, NodeTree.bares_push, List.filter_append, List.map_append, h.vectors]
    by_cases hkind : kind = .vector
    · simp [hkind, note_eraseDups]
    · simp [hkind]
  images := by
    simp only [Draft.add, NodeTree.bares_push, List.flatMap_append, h.images, foldl_note_eraseDups,
      List.flatMap_singleton]

theorem Orders.linkMask {d : Draft} (h : d.Orders) (mask : Nat) (id : String) :
    (d.linkMask mask id).Orders := by
  have hlists : (d.linkMask mask id).vectors = d.vectors ∧ (d.linkMask mask id).images = d.images := by
    unfold Draft.linkMask
    split <;> exact ⟨rfl, rfl⟩
  exact ⟨by rw [hlists.1, bares_linkMask, h.vectors], by rw [hlists.2, bares_linkMask, h.images]⟩

end Draft

theorem NormalizedScene.orders_ofCanvas (o : Options) (canvas : SceneNode) :
    (ofCanvas o canvas).Orders := by
  have hinvariant : Draft.Invariant o Draft.Orders :=
    ⟨fun h _ attrs _ _ => h.add o _ attrs _ _, fun h _ attrs _ _ _ => h.linkMask _ attrs.id⟩
  exact hinvariant.addComponents canvas.children ⟨rfl, rfl⟩

/-- A node stands for a layer: with its attributes and its normal form, below the node for the layer around
it, and with the nodes for the visible layers in it as its children. -/
structure Layer.IsNode (o : Options) (roots layers : List Layer) (l : Layer) (index : Nat) (node : Node) :
    Prop where
  index_eq : node.index = index
  attrs_eq : node.attrs = l.node.attrs
  params_eq : node.params = .parse o.delimiters l.node.attrs.name
  vector_iff : node.kind = .vector ↔ l.node.IsVector
  kind_eq : ¬l.node.IsVector → node.kind = l.node.attrs.kind
  shared : ∀ pair, l.node.Shares pair → node.constraints = pair
  own : (∀ pair, ¬l.node.Shares pair) → node.constraints = l.node.attrs.constraints.getD {}
  parent : l.HangsFrom roots layers node.parent
  leaf : l.node.IsVector → node.children = []
  children : ¬l.node.IsVector → node.children.map (layers[·]?) = l.visible.map some

/-- The nodes of a scene stand for the layers that are kept of a canvas, in document order, and its lists
of vectors and pictures are in the order of the nodes, each item at its first use. -/
structure NormalizedScene.Mirrors (o : Options) (canvas : SceneNode) (layers : List Layer)
    (s : NormalizedScene) : Prop where
  mem_iff : ∀ l, l ∈ layers ↔ canvas.Keeps l
  preorder : layers.Pairwise fun l l' => l.address < l'.address
  size_eq : s.tree.size = layers.length
  roots : s.tree.roots.map (layers[·]?) = canvas.components.map some
  node : ∀ i l, layers[i]? = some l →
    ∃ node, s.tree.get? i = some node ∧ l.IsNode o canvas.components layers i node
  vectors : s.vectors =
    ((s.tree.nodes.toList.filter (·.kind = .vector)).map (·.attrs.id)).eraseDups
  images : s.images = (s.tree.nodes.toList.flatMap fun n => imageRefs n.attrs.fills).eraseDups

namespace Layer

variable {layers ls : List Layer}

theorem nodup_of_pairwise (h : layers.Pairwise fun l l' => l.address < l'.address) :
    (layers.map address).Nodup := by
  refine List.pairwise_map.2 (h.imp fun {l l'} hlt heq => ?_)
  rw [heq] at hlt
  exact List.lt_irrefl _ hlt

theorem index_unique (h : layers.Pairwise fun l l' => l.address < l'.address) {i j : Nat} {l l' : Layer}
    (hi : layers[i]? = some l) (hj : layers[j]? = some l') (heq : l.address = l'.address) : i = j := by
  have hlt : i < (layers.map address).length := by
    rw [List.length_map]
    exact (List.getElem?_eq_some_iff.1 hi).1
  refine (List.getElem?_inj hlt (nodup_of_pairwise h)).1 ?_
  rw [List.getElem?_map, List.getElem?_map, hi, hj, Option.map_some, Option.map_some, heq]

theorem map_getElem?_filter_range (h : layers.Pairwise fun l l' => l.address < l'.address)
    (hls : ls.Pairwise fun l l' => l.address < l'.address) {p : Nat → Bool}
    (hmem : ∀ l, l ∈ ls ↔ ∃ i, layers[i]? = some l ∧ p i) :
    ((List.range layers.length).filter p).map (layers[·]?) = ls.map some := by
  have hall : (List.range layers.length).map (layers[·]?) = layers.map some := by
    refine List.ext_getElem? fun i => ?_
    rw [List.getElem?_map, List.getElem?_map]
    by_cases hi : i < layers.length
    · rw [List.getElem?_range hi, List.getElem?_eq_getElem hi]
      simp [hi]
    · simp [hi]
  have hsub : (((List.range layers.length).filter p).map (layers[·]?)).Sublist (layers.map some) := by
    rw [← hall]
    exact List.filter_sublist.map _
  obtain ⟨ls', hsub', heq⟩ := List.sublist_map_iff.1 hsub
  have hls' := h.sublist hsub'
  have hperm : ls'.Perm ls := by
    refine (List.perm_ext_iff_of_nodup (List.Nodup.of_map _ (nodup_of_pairwise hls'))
      (List.Nodup.of_map _ (nodup_of_pairwise hls))).2 fun l => ?_
    have hl : l ∈ ls' ↔ some l ∈ ((List.range layers.length).filter p).map (layers[·]?) := by
      rw [heq, List.mem_map_of_injective (Option.some_injective _)]
    rw [hl, hmem, List.mem_map]
    refine exists_congr fun i => ?_
    rw [List.mem_filter, List.mem_range]
    constructor
    · rintro ⟨⟨-, hp⟩, hi⟩
      exact ⟨hi, hp⟩
    · rintro ⟨hi, hp⟩
      exact ⟨⟨(List.getElem?_eq_some_iff.1 hi).1, hp⟩, hi⟩
  rw [heq, hperm.eq_of_pairwise (fun l l' _ _ hlt hlt' => absurd hlt' (List.lt_asymm hlt)) hls' hls]

end Layer

namespace NormalizedScene

variable {o : Options} {canvas : SceneNode} {i : Nat} {l : Layer}

theorem mem_components_iff : l ∈ canvas.components ↔
    ∃ i, canvas.keptLayers[i]? = some l ∧ (ofCanvas o canvas).tree.parent? i = none := by
  have hlists := lists_ofCanvas o canvas
  constructor
  · intro hl
    obtain ⟨i, hi⟩ := List.getElem?_of_mem (SceneNode.mem_keptLayers_iff.2 ⟨l, hl, .refl⟩)
    have hparent := hlists.hangsFrom hi
    refine ⟨i, hi, Option.eq_none_iff_forall_ne_some.2 fun p hp => ?_⟩
    rw [hp] at hparent
    obtain ⟨q, hq, hkeeps⟩ := hparent
    exact (SceneNode.mem_keptLayers_iff.1 (List.mem_of_getElem? hq)).notMem_components hkeeps hl
  · rintro ⟨i, hi, hroot⟩
    have hparent := hlists.hangsFrom hi
    rwa [hroot] at hparent

theorem keeps_iff (hl : canvas.keptLayers[i]? = some l) {c : Layer} :
    l.Keeps c ↔ ∃ j, canvas.keptLayers[j]? = some c ∧ (ofCanvas o canvas).tree.parent? j = some i := by
  have hlists := lists_ofCanvas o canvas
  constructor
  · intro hkeeps
    have hlayer := SceneNode.mem_keptLayers_iff.1 (List.mem_of_getElem? hl)
    obtain ⟨j, hj⟩ := List.getElem?_of_mem (SceneNode.mem_keptLayers_iff.2 (hlayer.tail hkeeps))
    have hc := hlists.hangsFrom hj
    refine ⟨j, hj, ?_⟩
    cases hparent : (ofCanvas o canvas).tree.parent? j with
    | none =>
        rw [hparent] at hc
        exact absurd hc (hlayer.notMem_components hkeeps)
    | some p =>
        rw [hparent] at hc
        obtain ⟨q, hq, hkeeps'⟩ := hc
        exact congrArg some (Layer.index_unique canvas.pairwise_keptLayers hq hl
          (Layer.address_eq_of_keeps hkeeps' hkeeps))
  · rintro ⟨j, hj, hparent⟩
    have hc := hlists.hangsFrom hj
    rw [hparent] at hc
    obtain ⟨q, hq, hkeeps⟩ := hc
    rw [hl] at hq
    cases hq
    exact hkeeps

theorem children_eq_nil (hl : canvas.keptLayers[i]? = some l) (hvector : l.node.IsVector) :
    (ofCanvas o canvas).tree.children i = [] := by
  rw [(linksBack_ofCanvas o canvas).children_eq, List.filter_eq_nil_iff]
  intro c hc hparent
  obtain ⟨layer, hlayer⟩ : ∃ layer, canvas.keptLayers[c]? = some layer := by
    rw [(lists_ofCanvas o canvas).size_eq, List.mem_range] at hc
    exact ⟨_, List.getElem?_eq_getElem hc⟩
  have hkeeps : l.Keeps layer := (keeps_iff hl).2 ⟨c, hlayer, of_decide_eq_true hparent⟩
  exact hkeeps.1 hvector

theorem map_children_eq (hl : canvas.keptLayers[i]? = some l) (hplain : ¬l.node.IsVector) :
    ((ofCanvas o canvas).tree.children i).map (canvas.keptLayers[·]?) = l.visible.map some := by
  rw [(linksBack_ofCanvas o canvas).children_eq, (lists_ofCanvas o canvas).size_eq]
  refine Layer.map_getElem?_filter_range canvas.pairwise_keptLayers
    (Layer.pairwise_address l.pairwise_visible) fun c => ?_
  have hkeeps : c ∈ l.visible ↔ l.Keeps c := (and_iff_right hplain).symm
  simpa [hkeeps] using keeps_iff hl

theorem isNode_of_getElem? (hl : canvas.keptLayers[i]? = some l) :
    ∃ node, (ofCanvas o canvas).tree.get? i = some node ∧
      l.IsNode o canvas.components canvas.keptLayers i node := by
  obtain ⟨node, found, hbare, hparent⟩ := (lists_ofCanvas o canvas).exists_node hl
  have hkind : node.kind = (normalForm l.node.attrs l.node.children).1 := congrArg Node.kind hbare
  have hconstraints : node.constraints = (normalForm l.node.attrs l.node.children).2 :=
    congrArg Node.constraints hbare
  have hchildren : node.children = (ofCanvas o canvas).tree.children i := by
    rw [NodeTree.children, found, Option.map_some, Option.getD_some]
  refine ⟨node, found, ?_⟩
  constructor
  case index_eq => exact congrArg Node.index hbare
  case attrs_eq => exact congrArg Node.attrs hbare
  case params_eq => exact congrArg Node.params hbare
  case vector_iff => rw [hkind, SceneNode.kind_normalForm_iff]
  case kind_eq => exact fun h => hkind.trans (SceneNode.kind_normalForm_of_not_isVector h)
  case shared => exact fun pair h => by rw [hconstraints, SceneNode.normalForm_of_shares h]
  case own => exact fun h => by rw [hconstraints, SceneNode.normalForm_of_not_shares h]
  case parent => exact hparent
  case leaf => exact fun h => hchildren.trans (children_eq_nil hl h)
  case children => exact fun h => hchildren ▸ map_children_eq hl h

end NormalizedScene

/-- A scene mirrors the layers that it keeps of its canvas. -/
theorem exists_mirrors_ofCanvas (o : Options) (canvas : SceneNode) :
    ∃ layers, (NormalizedScene.ofCanvas o canvas).Mirrors o canvas layers := by
  have hlists := NormalizedScene.lists_ofCanvas o canvas
  have horders := NormalizedScene.orders_ofCanvas o canvas
  have hsorted := canvas.pairwise_keptLayers
  refine ⟨canvas.keptLayers, fun l => SceneNode.mem_keptLayers_iff, hsorted, hlists.size_eq, ?_, ?_, ?_, ?_⟩
  · rw [(NormalizedScene.linksBack_ofCanvas o canvas).roots_eq, hlists.size_eq]
    refine Layer.map_getElem?_filter_range hsorted canvas.pairwise_components fun l => ?_
    simpa using NormalizedScene.mem_components_iff
  · exact fun i l hl => NormalizedScene.isNode_of_getElem? hl
  · rw [horders.vectors, NodeTree.bares, List.filter_map, List.map_map]
    rfl
  · rw [horders.images, NodeTree.bares, List.flatMap_map]
    rfl

end DesignCompiler

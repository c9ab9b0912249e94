import Mathlib.Algebra.BigOperators.Group.List.Basic
import DesignCompiler.Proofs.Threads

namespace DesignCompiler

open Step

variable {ctx : Context}

def Head.ids (h : Head) : List String :=
  (if h.hasOwnId then ["'" ++ h.id ++ "'"] else []) ++ (h.properties.filter (·.1 = "id")).map Prod.snd

/-- The values of the id attributes of a fragment; what is inside of a drawing is not looked at. -/
def Fragment.ids : Fragment → List String
  | .input head .. => head.ids
  | _ => []

def Tag.ids : Tag → List String
  | .opening _ (.middle h) => h.ids
  | .fragment _ f => f.ids
  | _ => []

theorem Fragment.ids_of_unwritten {f : Fragment} (h : f.isWritten = false) : f.ids = [] := by
  cases f with
  | input head type placeholder => cases h
  | _ => rfl

theorem Rendered.ids_head_foot (d : Rendered) :
    (d.head ++ d.foot).flatMap Tag.ids = d.middle.ids ++ (d.prelude ++ d.content).flatMap Fragment.ids := by
  have hopened : d.wrappers.flatMap (fun w => Tag.ids (.opening d.node w)) = d.middle.ids := by
    rw [wrappers]
    cases d.outer <;> cases d.inner <;> exact List.append_nil _
  have hclosed : d.wrappers.reverse.flatMap (fun w => Tag.ids (.closing d.node w)) = [] :=
    List.flatMap_eq_nil_iff.2 fun _ _ => rfl
  have hfragments : ∀ fs : List Fragment,
      fs.flatMap (fun f => Tag.ids (.fragment d.node f)) = fs.flatMap Fragment.ids := fun _ => rfl
  simp only [head, foot, List.flatMap_append, List.flatMap_map, hopened, hclosed, hfragments,
    List.append_nil, List.append_assoc]

namespace Node

variable (node : Node)

/-- The ids of the elements of a node: the wrapper of an input keeps the scene id, and a parameter sets
the id of the input in it. -/
def ids : List String :=
  (if node.isInput then [node.attrs.id] else []) ++ [(Params.value? "id" node.params).getD node.attrs.id]

theorem ids_head (rule : Option Rule) (classes : List ClassName) :
    Head.ids { id := node.attrs.id, properties := node.attributes, rule, classes } =
      ["'" ++ (Params.value? "id" node.params).getD node.attrs.id ++ "'"] := by
  rw [Head.ids, Head.hasOwnId, attributes]
  cases Params.value? "onClick" node.params <;> cases Params.value? "id" node.params <;> rfl

theorem ids_written (number : Nat) (classes : List ClassName) :
    (node.written number node.attributes classes).flatMap Fragment.ids =
      if node.isInput then ["'" ++ (Params.value? "id" node.params).getD node.attrs.id ++ "'"] else [] := by
  rw [written, isInput]
  split
  · next hkind => simp [hkind]
  · next hkind =>
    split
    · next hinput =>
      have htext : node.kind = .text := by simpa using hkind
      simp [htext, hinput, Fragment.ids, ids_head]
    · next hinput =>
      have hpieces : (List.zipWith Text.Piece.fragment (Rule.numbered number node.textStyles)
          node.pieces).flatMap Fragment.ids = [] := by
        rw [List.flatMap_eq_nil_iff]
        intro f hf
        obtain ⟨rule, -, piece, -, rfl⟩ := Text.Piece.exists_of_mem_zipWith hf
        cases piece <;> rfl
      simp [hpieces, hinput]

end Node

theorem Rendered.Composed.ids_eq {inside : Bool} {node : Node} {s u t : Scope} {i : Import} {w : Work}
    {v : Visit} {d : Rendered} (h : d.Composed ctx inside node s i w v u t) :
    (d.head ++ d.foot).flatMap Tag.ids = node.ids.map fun id => "'" ++ id ++ "'" := by
  have hplaced : (w.visit.prelude ++ w.visit.content).flatMap Fragment.ids = [] := by
    rw [List.flatMap_eq_nil_iff]
    exact fun f hf => Fragment.ids_of_unwritten (h.stands.fragments f hf).unwritten
  rw [ids_head_foot, h.prelude_eq, h.content_eq, ← List.append_assoc, List.flatMap_append, hplaced,
    List.nil_append, node.ids_written, h.middle_eq, Node.ids]
  cases node.isInput with
  | true => rfl
  | false => exact congrArg (· ++ []) (node.ids_head _ _)

def Context.ids (ctx : Context) (j : Nat) : List String :=
  ((ctx.forest.get? j).elim [] Node.ids).map fun id => "'" ++ id ++ "'"

theorem Context.ids_eq {j : Nat} {node : Node} (found : ctx.forest.get? j = some node) :
    ctx.ids j = node.ids.map fun id => "'" ++ id ++ "'" := by
  rw [ids, found]
  rfl

theorem Component.IsDrawn.perm_ids (hp : ctx.plugins = {}) (ht : ctx.forest.Tidy) {c : Component}
    (h : c.IsDrawn ctx) :
    (c.body.tags.flatMap Tag.ids).Perm (c.body.nodes.flatMap ctx.ids) := by
  have hown : ∀ d ∈ c.body.subtrees, (d.head ++ d.foot).flatMap Tag.ids = ctx.ids d.node := by
    intro d hd
    obtain ⟨_, _, _, _, _, _, _, _, found, -, hcomposed, -⟩ := h.exists_composed hp ht hd
    rw [hcomposed.ids_eq, Context.ids_eq found]
  refine (c.body.perm_tags.flatMap_right Tag.ids).trans ?_
  rw [List.flatMap_assoc, List.flatMap_congr hown, Rendered.nodes, List.flatMap_map]

/-- No two nodes have the same scene id, and no parameter sets an id. -/
structure Forest.HasPlainIds (f : Forest) : Prop where
  distinct : (f.nodes.toList.map fun n => n.attrs.id).Nodup
  unset : ∀ n ∈ f.nodes.toList, Params.value? "id" n.params = none

namespace Forest.HasPlainIds

variable {j k : Nat} {m n : Node}

theorem eq_of_id_eq (h : ctx.forest.HasPlainIds) (hm : ctx.forest.get? j = some m)
    (hn : ctx.forest.get? k = some n) (hid : m.attrs.id = n.attrs.id) : j = k := by
  have hat : ∀ {j : Nat} {m : Node}, ctx.forest.get? j = some m →
      (ctx.forest.nodes.toList.map fun n => n.attrs.id)[j]? = some m.attrs.id := by
    intro j m hm
    rw [List.getElem?_map, Array.getElem?_toList]
    exact congrArg _ hm
  obtain ⟨hlt, -⟩ := List.getElem?_eq_some_iff.1 (hat hm)
  exact (List.getElem?_inj hlt h.distinct).1 ((hat hm).trans ((congrArg some hid).trans (hat hn).symm))

/-- The elements of a node have its scene id, once or, for an input, twice. -/
theorem ids_eq (h : ctx.forest.HasPlainIds) (found : ctx.forest.get? j = some n) :
    ctx.ids j = List.replicate (if n.isInput then 2 else 1) ("'" ++ n.attrs.id ++ "'") := by
  have hunset := h.unset n (List.mem_of_getElem? (Array.getElem?_toList.trans found))
  rw [Context.ids_eq found, Node.ids, hunset]
  cases n.isInput <;> rfl

theorem count_ids (h : ctx.forest.HasPlainIds) {nodes : List Nat} (hnodes : nodes.Nodup) (hj : j ∈ nodes)
    (found : ctx.forest.get? j = some n) :
    (nodes.flatMap ctx.ids).count ("'" ++ n.attrs.id ++ "'") = if n.isInput then 2 else 1 := by
  have hothers : ∀ k, k ≠ j → k ∈ nodes → (List.count ("'" ++ n.attrs.id ++ "'") ∘ ctx.ids) k = 0 := by
    intro k hk _
    rw [Function.comp_apply, List.count_eq_zero]
    intro hid
    cases hfound : ctx.forest.get? k with
    | none => simp [Context.ids, hfound] at hid
    | some m =>
        rw [h.ids_eq hfound] at hid
        have hsame : n.attrs.id = m.attrs.id := by simpa using List.eq_of_mem_replicate hid
        exact hk (h.eq_of_id_eq hfound found hsame.symm)
  rw [List.count_flatMap, List.sum_map_eq_nsmul_single j _ hothers, List.count_eq_one_of_mem hnodes hj,
    one_nsmul, Function.comp_apply, h.ids_eq found, List.count_replicate_self]

end Forest.HasPlainIds

/-- The ids in the markup of a component are the scene ids of the nodes that it shows. Each is there once,
but for those of inputs, which are there twice. -/
theorem ids_of_build (hp : ctx.plugins = {}) {o : Options} {canvas : SceneNode}
    (hf : ctx.forest = (NormalizedScene.ofCanvas o canvas).forest) (hids : ctx.forest.HasPlainIds) {i : Nat}
    {c : Component} {r s : Registry} (hr : r.Reachable ctx)
    (h : exec (buildComponent ctx i) r = (.ok c, s)) :
    c.markup = Tag.print c.scope.classPrefix c.body.tags ∧
      (∀ id ∈ c.body.tags.flatMap Tag.ids, ∃ j node, ctx.Shows c.root j ∧
        ctx.forest.get? j = some node ∧ id = "'" ++ node.attrs.id ++ "'") ∧
      (∀ j, ctx.Shows c.root j → ∃ node, ctx.forest.get? j = some node ∧
        (c.body.tags.flatMap Tag.ids).count ("'" ++ node.attrs.id ++ "'") = if node.isInput then 2 else 1) ∧
      ((c.body.tags.flatMap Tag.ids).Nodup ↔
        ∀ j node, ctx.Shows c.root j → ctx.forest.get? j = some node → node.isInput = false) := by
  have ht : ctx.forest.Tidy := hf ▸ NormalizedScene.tidy_ofCanvas o canvas
  have hdrawn := isDrawn_of_build hr h
  have hperm := hdrawn.perm_ids hp ht
  obtain ⟨-, hnodup, hshown⟩ := hdrawn.shown hp ht
  have hcount : ∀ j node, ctx.Shows c.root j → ctx.forest.get? j = some node →
      (c.body.tags.flatMap Tag.ids).count ("'" ++ node.attrs.id ++ "'") = if node.isInput then 2 else 1 :=
    fun j node hj found => (hperm.count_eq _).trans (hids.count_ids hnodup ((hshown j).2 hj) found)
  have howner : ∀ id ∈ c.body.tags.flatMap Tag.ids, ∃ j node, ctx.Shows c.root j ∧
      ctx.forest.get? j = some node ∧ id = "'" ++ node.attrs.id ++ "'" := by
    intro id hid
    obtain ⟨j, hj, hid⟩ := List.mem_flatMap.1 (hperm.mem_iff.1 hid)
    obtain ⟨node, found⟩ := hdrawn.exists_node hp ht hj
    rw [hids.ids_eq found] at hid
    exact ⟨j, node, (hshown j).1 hj, found, List.eq_of_mem_replicate hid⟩
  refine ⟨Rendered.print_eq .., howner, ?_, ?_, ?_⟩
  · intro j hj
    obtain ⟨node, found⟩ := hdrawn.exists_node hp ht ((hshown j).2 hj)
    exact ⟨node, found, hcount j node hj found⟩
  · intro honce j node hj found
    have hone := List.nodup_iff_count_le_one.1 honce ("'" ++ node.attrs.id ++ "'")
    rw [hcount j node hj found] at hone
    cases hinput : node.isInput with
    | false => rfl
    | true => simp [hinput] at hone
  · intro hplain
    rw [List.nodup_iff_count_le_one]
    intro id
    by_cases hid : id ∈ c.body.tags.flatMap Tag.ids
    · obtain ⟨j, node, hj, found, rfl⟩ := howner id hid
      rw [hcount j node hj found, hplain j node hj found]
      exact Nat.le_refl 1
    · rw [List.count_eq_zero.2 hid]
      exact Nat.zero_le 1

theorem ids_cardWithPhoto :
    ∃ c s, exec (buildComponent cardWithPhoto 0) {} = (.ok c, s) ∧ c.body.nodes = [0, 3, 1] ∧
      (c.body.tags.flatMap Tag.ids).Nodup := by
  have hnodes := nodes_build_cardWithPhoto
  rcases hc : (exec (buildComponent cardWithPhoto 0) {}).1 with e | c <;> rw [hc] at hnodes
  · cases hnodes
  · have hbuild : exec (buildComponent cardWithPhoto 0) {} =
        (.ok c, (exec (buildComponent cardWithPhoto 0) {}).2) := Prod.ext hc rfl
    have hids : cardWithPhoto.forest.HasPlainIds := ⟨by decide, by decide⟩
    have hshown := ((isDrawn_of_build .empty hbuild).shown rfl (NormalizedScene.tidy_ofCanvas ..)).2.2
    have hplain : ∀ j ∈ [0, 3, 1], (cardWithPhoto.forest.get? j).elim false Node.isInput = false := by
      decide
    refine ⟨c, _, hbuild, Option.some.inj hnodes, ?_⟩
    refine (ids_of_build rfl rfl hids .empty hbuild).2.2.2.2 fun j node hj found => ?_
    have hmem : j ∈ [0, 3, 1] := Option.some.inj hnodes ▸ (hshown j).2 hj
    have hnode := hplain j hmem
    rwa [found] at hnode

def cardWithInput : Context where
  forest := (NormalizedScene.ofCanvas {}
    { attrs := { id := "0:0", name := "Page", kind := .canvas }
      children :=
        [{ attrs := { id := "1", name := "#Card" }
           children :=
            [{ attrs := { id := "2", name := "field??input", kind := .text
                          characters := some "Name" } }] }] }).forest
  options := {}
  resources := {}
  descriptions := []

/-- The wrapper of the input and the input in it have the same id. -/
theorem not_forall_nodup_ids :
    ¬∀ (ctx : Context) (o : Options) (canvas : SceneNode) (i : Nat) (c : Component) (r s : Registry),
      ctx.plugins = {} → ctx.forest = (NormalizedScene.ofCanvas o canvas).forest →
      ctx.forest.HasPlainIds → r.Reachable ctx → exec (buildComponent ctx i) r = (.ok c, s) →
      (c.body.tags.flatMap Tag.ids).Nodup := by
  intro hall
  have hids : (exec (buildComponent cardWithInput 0) {}).1.toOption.map
      (fun c => c.body.tags.flatMap Tag.ids) = some ["'1'", "'2'", "'2'"] := by
    decide +kernel
  rcases hc : (exec (buildComponent cardWithInput 0) {}).1 with e | c <;> rw [hc] at hids
  · cases hids
  · have htwice : c.body.tags.flatMap Tag.ids = ["'1'", "'2'", "'2'"] := Option.some.inj hids
    have hnodup := hall cardWithInput _ _ 0 c {} _ rfl rfl ⟨by decide, by decide +kernel⟩ .empty
      (Prod.ext hc rfl)
    rw [htwice] at hnodup
    exact absurd hnodup (by decide)

end DesignCompiler

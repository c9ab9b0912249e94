import DesignCompiler.Proofs.Tags

namespace DesignCompiler

open Step Relation

variable {ctx : Context}

/-- The least set of nodes with the root and with what the nodes in the set draw. -/
inductive Context.Shows (ctx : Context) (root : Nat) : Nat → Prop
  | root : Shows ctx root root
  | child {n p c : Nat} {node : Node} (shown : Shows ctx root n)
      (found : ctx.forest.get? n = some node) (keeps : ctx.replaces (n != root) node = false)
      (through : ReflTransGen ctx.forest.SeesThrough n p) (below : ctx.forest.HasChild p c)
      (plain : ctx.forest.IsPlain c) : Shows ctx root c

namespace Draw

variable {d e root : Draw} {r : Rendered} {node : Node}

theorem Leaves.eq_replaces (hp : ctx.plugins = {}) {cleared : Bool} (h : d.Leaves ctx cleared)
    (found : ctx.forest.get? d.node = some node) :
    cleared = ctx.replaces d.place.parent.isSome node := by
  obtain ⟨node', rendered, t, found', entered⟩ := h
  obtain rfl := Option.some.inj (found.symm.trans found')
  exact (exists_places_of_enterNode hp entered).1

/-- The plugins of a visit leave the children out just when the node is replaced. -/
theorem Visits.leaves (hp : ctx.plugins = {}) (hroot : root.place.parent = none)
    (h : root.Gives ctx r) (hd : root.Visits ctx d) :
    ∃ node, ctx.forest.get? d.node = some node ∧
      d.Leaves ctx (ctx.replaces (d.node != root.node) node) := by
  obtain ⟨c, -, hc⟩ := hd.exists_gives h
  obtain ⟨cleared, hleaves⟩ := hc.leaves
  obtain ⟨node, rendered, t, found, entered⟩ := hleaves
  have hcleared := Leaves.eq_replaces hp ⟨node, rendered, t, found, entered⟩ found
  rw [hd.isSome_parent hroot] at hcleared
  exact ⟨node, found, node, rendered, t, found, hcleared ▸ entered⟩

theorem exists_visits_iff (hp : ctx.plugins = {}) (hroot : root.place.parent = none)
    (h : root.Gives ctx r) {j : Nat} :
    (∃ d, root.Visits ctx d ∧ d.node = j) ↔ ctx.Shows root.node j := by
  -- The visits to a node and the ways in which it is shown both follow the drawing from the root.
  constructor
  · rintro ⟨d, hd, rfl⟩
    induction hd with
    | refl => exact .root
    | @tail a d ha had ih =>
        obtain ⟨node, found, hleaves⟩ := Visits.leaves hp hroot h ha
        obtain ⟨p, hthrough, hbelow, hplain⟩ := Forest.mem_flattened_iff_exists.1 had.mem_flattened
        exact .child ih found (hleaves.unique had.leaves) hthrough hbelow hplain
  · intro hj
    induction hj with
    | root => exact ⟨root, .refl, rfl⟩
    | @child n p c node _ found keeps through below plain ih =>
        obtain ⟨d, hd, rfl⟩ := ih
        obtain ⟨node', found', hleaves⟩ := Visits.leaves hp hroot h hd
        obtain rfl := Option.some.inj (found.symm.trans found')
        rw [keeps] at hleaves
        obtain ⟨a, -, ha⟩ := hd.exists_gives h
        have hc := Forest.mem_flattened_iff_exists.2 ⟨p, through, below, plain⟩
        obtain ⟨e, he, hnode⟩ :=
          ha.exists_draws_of_schedules hleaves (Forest.schedules_iff.2 hc)
        exact ⟨e, hd.tail he, hnode⟩

theorem Gives.exists_node (hp : ctx.plugins = {}) (ht : ctx.forest.Tidy) (h : d.Gives ctx r) :
    r.node = d.node ∧ ∃ node, ctx.forest.get? d.node = some node ∧ r.middle.id = node.attrs.id := by
  have hentered : ∀ {cleared rendered s} {node : Node}, ctx.forest.get? d.node = some node →
      exec (enterNode ctx d.node node d.place) (d.scope, d.registry) = (.ok (cleared, rendered), s) →
      rendered.node = d.node ∧
        ∃ node, ctx.forest.get? d.node = some node ∧ rendered.middle.id = node.attrs.id := by
    intro cleared rendered s node found entered
    obtain ⟨-, ⟨hindex, hid⟩, -⟩ := exists_places_of_enterNode hp entered
    exact ⟨hindex.trans (ht.index_eq _ _ found), node, found, hid⟩
  obtain ⟨node, rendered, s, found, ⟨entered, rfl⟩ | ⟨entered, children, t, -, rfl⟩⟩ := h.cases
  · exact hentered found entered
  · obtain ⟨hnode, hid⟩ := hentered found entered
    exact ⟨hnode, hid⟩

theorem Gives.node_eq (hp : ctx.plugins = {}) (ht : ctx.forest.Tidy) (h : d.Gives ctx r) :
    r.node = d.node :=
  (h.exists_node hp ht).1

theorem Gives.node_children (hp : ctx.plugins = {}) (ht : ctx.forest.Tidy) (h : d.Gives ctx r)
    (hl : d.Leaves ctx false) :
    r.children.map Rendered.node = (ctx.forest.buckets d.node).turns.map Turn.node := by
  obtain ⟨node, rendered, s, found, ⟨entered, -⟩ | ⟨entered, children, t, hturns, rfl⟩⟩ := h.cases
  · cases hl.unique ⟨node, rendered, s, found, entered⟩
  · refine map_eq_of_exec_mapM hturns ?_
    intro turn _ c u v hc
    exact Gives.node_eq (d := ⟨turn.node, turn.place ctx node, u.1, u.2⟩) hp ht ⟨v, hc⟩

theorem Gives.children_eq_nil (h : d.Gives ctx r) (hl : d.Leaves ctx true) : r.children = [] := by
  obtain ⟨node, rendered, s, found, ⟨entered, rfl⟩ | ⟨entered, -⟩⟩ := h.cases
  · exact children_of_enterNode entered
  · cases hl.unique ⟨node, rendered, s, found, entered⟩

theorem Gives.nodup_children (hp : ctx.plugins = {}) (ht : ctx.forest.Tidy) (h : d.Gives ctx r) :
    (r.children.map Rendered.node).Nodup := by
  obtain ⟨cleared, hl⟩ := h.leaves
  cases cleared with
  | true =>
      rw [h.children_eq_nil hl]
      exact List.nodup_nil
  | false =>
      rw [h.node_children hp ht hl]
      exact Forest.nodup_turns ht d.node

theorem Gives.mem_nodes_iff (hp : ctx.plugins = {}) (ht : ctx.forest.Tidy) (h : root.Gives ctx r)
    {j : Nat} : j ∈ r.nodes ↔ ∃ d, root.Visits ctx d ∧ d.node = j := by
  rw [Rendered.nodes, List.mem_map]
  constructor
  · rintro ⟨c, hc, rfl⟩
    obtain ⟨d, hd, hgives⟩ := h.exists_visits hc
    exact ⟨d, hd, (hgives.node_eq hp ht).symm⟩
  · rintro ⟨d, hd, rfl⟩
    obtain ⟨c, hc, hgives⟩ := hd.exists_gives h
    exact ⟨c, hc, hgives.node_eq hp ht⟩

/-- No node is drawn twice, for what is drawn below a child is below that child alone. -/
theorem Gives.nodup_nodes (hp : ctx.plugins = {}) (ht : ctx.forest.Tidy) (h : d.Gives ctx r) :
    r.nodes.Nodup := by
  induction r using Rendered.induction_children generalizing d with
  | step r ih =>
      have hchild : ∀ c ∈ r.children, c.node ∈ ctx.forest.flattened d.node ∧ c.nodes.Nodup ∧
          ∀ j ∈ c.nodes, ctx.forest.AtOrBelow c.node j := by
        intro c hc
        obtain ⟨e, he, hgives⟩ := h.exists_draws hc
        refine ⟨?_, ih c hc hgives, ?_⟩
        · rw [hgives.node_eq hp ht]
          exact he.mem_flattened
        · intro j hj
          obtain ⟨a, ha, rfl⟩ := (hgives.mem_nodes_iff hp ht).1 hj
          rw [hgives.node_eq hp ht]
          exact ha.atOrBelow
      rw [Rendered.nodes_eq, List.nodup_cons, List.nodup_flatMap]
      refine ⟨?_, fun c hc => (hchild c hc).2.1, ?_⟩
      · rw [List.mem_flatMap]
        rintro ⟨c, hc, hr⟩
        have hlt := ctx.forest.lt_of_mem_flattened (hchild c hc).1
        have hle := ((hchild c hc).2.2 _ hr).le
        rw [h.node_eq hp ht] at hle
        omega
      · have hpairs := List.pairwise_map.1 (h.nodup_children hp ht)
        refine hpairs.imp_of_mem ?_
        intro a b ha hb hne j hja hjb
        exact hne (Forest.eq_of_atOrBelow ht.linked (hchild a ha).1 (hchild b hb).1
          ((hchild a ha).2.2 j hja) ((hchild b hb).2.2 j hjb))

/-- What the drawing of a component visits and what its markup holds. -/
structure Covers (ctx : Context) (root : Draw) (body : Rendered) : Prop where
  visits_unique : ∀ d e, root.Visits ctx d → root.Visits ctx e → d.node = e.node → d = e
  visited_iff : ∀ j, (∃ d, root.Visits ctx d ∧ d.node = j) ↔ ctx.Shows root.node j
  leaves : ∀ d, root.Visits ctx d → ∃ node, ctx.forest.get? d.node = some node ∧
    d.Leaves ctx (ctx.replaces (d.node != root.node) node)
  nodup_nodes : body.nodes.Nodup
  drawn_iff : ∀ j, j ∈ body.nodes ↔ ctx.Shows root.node j
  opened_eq : body.tags.filterMap Tag.opened? = body.nodes
  closed_perm : (body.tags.filterMap Tag.closed?).Perm body.nodes
  /-- The markup of a drawn node is one block, with the blocks of its children inside of its own
  wrapper. -/
  block : ∀ d ∈ body.subtrees, d.tags <:+: body.tags ∧
    d.tags = d.head ++ d.children.flatMap Rendered.tags ++ d.foot ∧
    d.head.filterMap Tag.opened? = [d.node] ∧ d.foot.filterMap Tag.closed? = [d.node]
  children : ∀ d ∈ body.subtrees, ∃ node, ctx.forest.get? d.node = some node ∧
    d.middle.id = node.attrs.id ∧ d.children.map Rendered.node =
      if ctx.replaces (d.node != root.node) node then []
      else ((ctx.forest.buckets d.node).min ++ (ctx.forest.buckets d.node).center ++
        (ctx.forest.buckets d.node).max).map ChildEntry.node

theorem Gives.covers (hp : ctx.plugins = {}) (ht : ctx.forest.Tidy) (hroot : root.place.parent = none)
    (h : root.Gives ctx r) : Covers ctx root r where
  visits_unique _ _ hd he hnode := hd.unique ht he hnode
  visited_iff _ := exists_visits_iff hp hroot h
  leaves _ hd := hd.leaves hp hroot h
  nodup_nodes := h.nodup_nodes hp ht
  drawn_iff _ := (h.mem_nodes_iff hp ht).trans (exists_visits_iff hp hroot h)
  opened_eq := r.opened_tags
  closed_perm := r.perm_closed_tags
  block d hd := by
    obtain ⟨hhead, -, -, hfoot⟩ := d.middle_head_foot
    exact ⟨Rendered.tags_infix_of_mem_subtrees hd, d.tags_eq_head_foot, hhead, hfoot⟩
  children d hd := by
    obtain ⟨a, ha, hgives⟩ := h.exists_visits hd
    obtain ⟨node, found, hleaves⟩ := ha.leaves hp hroot h
    obtain ⟨hnode, node', found', hid⟩ := hgives.exists_node hp ht
    obtain rfl := Option.some.inj (found.symm.trans found')
    rw [hnode]
    refine ⟨node, found, hid, ?_⟩
    cases hreplaced : ctx.replaces (a.node != root.node) node with
    | true =>
        rw [hreplaced] at hleaves
        simp [hgives.children_eq_nil hleaves]
    | false =>
        rw [hreplaced] at hleaves
        rw [hgives.node_children hp ht hleaves, Forest.node_turns]
        rfl

end Draw

/-- A component shows each node of the least set that its root and the buckets determine, once, with
the blocks of siblings in the order of their buckets. -/
theorem covers_of_build (hp : ctx.plugins = {}) {o : Options} {canvas : SceneNode}
    (hf : ctx.forest = (NormalizedScene.ofCanvas o canvas).forest) {i : Nat} {node : Node}
    {c : Component} {r s : Registry} (found : ctx.forest.get? i = some node)
    (unfinished : r.components.lookup (ctx.nameOf node) = none)
    (h : exec (buildComponent ctx i) r = (.ok c, s)) :
    Draw.Covers ctx ⟨i, {}, .start ctx (ctx.nameOf node), r.opened (ctx.nameOf node)⟩ c.body ∧
      c.markup = Tag.print c.scope.classPrefix c.body.tags := by
  have ht : ctx.forest.Tidy := hf ▸ NormalizedScene.tidy_ofCanvas o canvas
  obtain ⟨-, body, scope, t, hdraw, rfl, -⟩ := exists_body_of_build found unfinished h
  have hgives : Draw.Gives ctx ⟨i, {}, .start ctx (ctx.nameOf node), r.opened (ctx.nameOf node)⟩ body :=
    ⟨(scope, t), hdraw⟩
  exact ⟨hgives.covers hp ht rfl, Rendered.print_eq ..⟩

def cardWithPhoto : Context where
  forest := (NormalizedScene.ofCanvas {}
    { attrs := { id := "0:0", name := "Page", kind := .canvas }
      children :=
        [{ attrs := { id := "1", name := "#Card" }
           children :=
            [{ attrs := { id := "2", name := "photo", kind := .rectangle
                          constraints := some ⟨.left, .bottom⟩ } },
              { attrs := { id := "3", name := "cut", kind := .rectangle, isMask := true } },
              { attrs := { id := "4", name := "#Badge" }
                children := [{ attrs := { id := "5", name := "dot", kind := .rectangle } }] }] }] }).forest
  options := {}
  resources := {}
  descriptions := []

theorem nodes_build_cardWithPhoto :
    (exec (buildComponent cardWithPhoto 0) {}).1.toOption.map (fun c => c.body.nodes) =
      some [0, 3, 1] := by
  decide +kernel

/-- The badge comes before the photo, which is at the bottom; the card draws neither the mask nor what is
in the badge. -/
theorem covers_cardWithPhoto :
    ∃ node c s, cardWithPhoto.forest.get? 0 = some node ∧
      List.lookup (cardWithPhoto.nameOf node) ({} : Registry).components = none ∧
      exec (buildComponent cardWithPhoto 0) {} = (.ok c, s) ∧
      Draw.Covers cardWithPhoto ⟨0, {}, .start cardWithPhoto (cardWithPhoto.nameOf node),
        Registry.opened (cardWithPhoto.nameOf node) {}⟩ c.body ∧
      c.body.tags.filterMap Tag.opened? = [0, 3, 1] := by
  have hnodes := nodes_build_cardWithPhoto
  rcases hc : (exec (buildComponent cardWithPhoto 0) {}).1 with e | c <;> rw [hc] at hnodes
  · cases hnodes
  · obtain ⟨node, found⟩ : ∃ node, cardWithPhoto.forest.get? 0 = some node := ⟨_, rfl⟩
    have hcovers := (covers_of_build rfl rfl found rfl (Prod.ext hc rfl)).1
    refine ⟨node, c, _, found, rfl, Prod.ext hc rfl, hcovers, ?_⟩
    rw [hcovers.opened_eq]
    exact Option.some.inj hnodes

end DesignCompiler

import DesignCompiler.Proofs.Displayed
import DesignCompiler.Proofs.Siblings

namespace DesignCompiler

open Step Relation

variable {ctx : Context}

namespace Rendered

theorem sizeOf_lt_of_mem_children {r c : Rendered} (h : c ∈ r.children) : sizeOf c < sizeOf r := by
  have hlt := List.sizeOf_lt_of_mem h
  cases r
  simp only [Rendered.mk.sizeOf_spec]
  dsimp only at hlt
  omega

theorem induction_children {motive : Rendered → Prop}
    (step : ∀ r, (∀ c ∈ r.children, motive c) → motive r) (r : Rendered) : motive r := by
  induction hk : sizeOf r using Nat.strongRecOn generalizing r with
  | ind k ih =>
      subst hk
      exact step r fun c hc => ih _ (sizeOf_lt_of_mem_children hc) c rfl

mutual

def subtrees : Rendered → List Rendered
  | ⟨node, outer, middle, inner, prelude, children, content⟩ =>
    ⟨node, outer, middle, inner, prelude, children, content⟩ :: subtreesOfAll children

def subtreesOfAll : List Rendered → List Rendered
  | [] => []
  | r :: rest => subtrees r ++ subtreesOfAll rest

end

def nodes (r : Rendered) : List Nat := r.subtrees.map Rendered.node

theorem subtreesOfAll_eq (rs : List Rendered) : subtreesOfAll rs = rs.flatMap subtrees := by
  induction rs with
  | nil => rw [subtreesOfAll]; rfl
  | cons r rs ih => rw [subtreesOfAll, ih]; rfl

theorem subtrees_eq (r : Rendered) : r.subtrees = r :: r.children.flatMap subtrees := by
  cases r
  rw [subtrees, subtreesOfAll_eq]

theorem nodes_eq (r : Rendered) : r.nodes = r.node :: r.children.flatMap nodes := by
  rw [nodes, subtrees_eq, List.map_cons, List.map_flatMap]
  rfl

theorem mem_subtrees_iff {r d : Rendered} :
    d ∈ r.subtrees ↔ ReflTransGen (fun a c => c ∈ a.children) r d := by
  induction r using induction_children with
  | step r ih =>
      rw [subtrees_eq, List.mem_cons, List.mem_flatMap, ReflTransGen.cases_head_iff, eq_comm]
      constructor
      · rintro (h | ⟨c, hc, hd⟩)
        · exact .inl h
        · exact .inr ⟨c, hc, (ih c hc).1 hd⟩
      · rintro (h | ⟨c, hc, hd⟩)
        · exact .inl h
        · exact .inr ⟨c, hc, (ih c hc).2 hd⟩

end Rendered

namespace Draw

variable {d e root : Draw} {r : Rendered}

def Gives (ctx : Context) (d : Draw) (r : Rendered) : Prop :=
  ∃ t, exec (drawNode ctx d.node d.place) (d.scope, d.registry) = (.ok r, t)

def Leaves (ctx : Context) (d : Draw) (cleared : Bool) : Prop :=
  ∃ node rendered t, ctx.forest.get? d.node = some node ∧
    exec (enterNode ctx d.node node d.place) (d.scope, d.registry) = (.ok (cleared, rendered), t)

theorem Leaves.unique {b c : Bool} (hb : d.Leaves ctx b) (hc : d.Leaves ctx c) : b = c := by
  obtain ⟨node, _, _, found, entered⟩ := hb
  obtain ⟨_, _, _, found', entered'⟩ := hc
  obtain rfl := Option.some.inj (found.symm.trans found')
  rw [entered] at entered'
  cases entered'
  rfl

theorem Draws.leaves (h : d.Draws ctx e) : d.Leaves ctx false := by
  cases h with
  | child found entered => exact ⟨_, _, _, found, entered⟩

theorem Gives.cases (h : d.Gives ctx r) :
    ∃ node rendered s, ctx.forest.get? d.node = some node ∧
      ((exec (enterNode ctx d.node node d.place) (d.scope, d.registry) = (.ok (true, rendered), s) ∧
          r = rendered) ∨
        exec (enterNode ctx d.node node d.place) (d.scope, d.registry) = (.ok (false, rendered), s) ∧
          ∃ children t, exec (drawTurns ctx node (ctx.forest.buckets d.node).turns) s =
            (.ok children, t) ∧ r = { rendered with children }) := by
  obtain ⟨t, h⟩ := h
  obtain ⟨node, rendered, s, found, ⟨entered, hr, -⟩ | ⟨entered, children, hturns, hr⟩⟩ :=
    exec_drawNode_eq_ok h
  · exact ⟨node, rendered, s, found, .inl ⟨entered, hr⟩⟩
  · exact ⟨node, rendered, s, found, .inr ⟨entered, children, t, hturns, hr⟩⟩

theorem Gives.leaves (h : d.Gives ctx r) : ∃ cleared, d.Leaves ctx cleared := by
  obtain ⟨node, rendered, s, found, ⟨entered, -⟩ | ⟨entered, -⟩⟩ := h.cases
  · exact ⟨true, node, rendered, s, found, entered⟩
  · exact ⟨false, node, rendered, s, found, entered⟩

theorem Gives.exists_draws (h : d.Gives ctx r) {c : Rendered} (hc : c ∈ r.children) :
    ∃ e, d.Draws ctx e ∧ e.Gives ctx c := by
  obtain ⟨node, rendered, s, found, ⟨entered, rfl⟩ | ⟨entered, children, t, hturns, rfl⟩⟩ := h.cases
  · rw [children_of_enterNode entered] at hc
    cases hc
  · obtain ⟨before, turn, after, drawn, u, v, hsplit, hbefore, hdraw⟩ :=
      exists_split_of_exec_mapM hturns hc
    exact ⟨_, .child found entered hsplit hbefore, v, hdraw⟩

theorem Gives.of_draws (h : d.Gives ctx r) (hd : d.Draws ctx e) :
    ∃ c ∈ r.children, e.Gives ctx c := by
  cases hd with
  | @child node rendered s u before after turn drawn found entered turns earlier =>
      obtain ⟨node', rendered', s', found', hcases⟩ := h.cases
      obtain rfl := Option.some.inj (found.symm.trans found')
      rw [entered] at hcases
      rcases hcases with ⟨htrue, -⟩ | ⟨hfalse, children, t, hturns, rfl⟩
      · cases htrue
      · -- The turns before that of `e` are the same in both runs, and so is the state after them.
        cases hfalse
        rw [turns] at hturns
        obtain ⟨cs, v, ds, hcs, hds, rfl⟩ := exec_mapM_append_eq_ok.1 hturns
        rw [drawTurns] at earlier
        rw [earlier] at hcs
        cases hcs
        obtain ⟨c, v', rest, hc, -, rfl⟩ := exec_mapM_cons_eq_ok.1 hds
        exact ⟨c, by simp, v', hc⟩

theorem Gives.exists_draws_of_schedules (h : d.Gives ctx r) (hl : d.Leaves ctx false) {c : Nat}
    (hc : ctx.forest.Schedules d.node c) : ∃ e, d.Draws ctx e ∧ e.node = c := by
  obtain ⟨turn, hturn, rfl⟩ := hc
  obtain ⟨before, after, hsplit⟩ := List.append_of_mem hturn
  obtain ⟨node, rendered, s, found, ⟨entered, -⟩ | ⟨entered, children, t, hturns, -⟩⟩ := h.cases
  · cases hl.unique ⟨node, rendered, s, found, entered⟩
  · rw [hsplit] at hturns
    obtain ⟨drawn, u, -, hbefore, -, -⟩ := exec_mapM_append_eq_ok.1 hturns
    exact ⟨_, .child found entered hsplit hbefore, rfl⟩

theorem Visits.exists_gives (hv : root.Visits ctx d) (h : root.Gives ctx r) :
    ∃ c ∈ r.subtrees, d.Gives ctx c := by
  induction hv with
  | refl => exact ⟨r, Rendered.mem_subtrees_iff.2 .refl, h⟩
  | tail _ hd ih =>
      obtain ⟨a, ha, hgives⟩ := ih
      obtain ⟨c, hc, hgives'⟩ := hgives.of_draws hd
      exact ⟨c, Rendered.mem_subtrees_iff.2 ((Rendered.mem_subtrees_iff.1 ha).tail hc), hgives'⟩

theorem Gives.exists_visits (h : root.Gives ctx r) {c : Rendered} (hc : c ∈ r.subtrees) :
    ∃ d, root.Visits ctx d ∧ d.Gives ctx c := by
  induction Rendered.mem_subtrees_iff.1 hc with
  | refl => exact ⟨root, .refl, h⟩
  | @tail a b hra hab ih =>
      obtain ⟨d, hd, hgives⟩ := ih (Rendered.mem_subtrees_iff.2 hra)
      obtain ⟨e, he, hgives'⟩ := hgives.exists_draws hab
      exact ⟨e, hd.tail he, hgives'⟩

theorem Draws.mem_flattened (h : d.Draws ctx e) : e.node ∈ ctx.forest.flattened d.node :=
  Forest.schedules_iff.1 h.schedules

theorem Draws.isSome_parent (h : d.Draws ctx e) : e.place.parent.isSome := by
  cases h with
  | child => rfl

theorem Visits.atOrBelow (h : root.Visits ctx d) : ctx.forest.AtOrBelow root.node d.node :=
  h.reflTransGen_hasChild

theorem Visits.isSome_parent (h : root.Visits ctx d) (hroot : root.place.parent = none) :
    d.place.parent.isSome = (d.node != root.node) := by
  cases ReflTransGen.cases_tail h with
  | inl heq => simp [heq, hroot]
  | inr htail =>
      obtain ⟨a, ha, hd⟩ := htail
      have hle := Visits.atOrBelow ha |>.le
      have hlt := ctx.forest.lt_of_mem_flattened hd.mem_flattened
      rw [hd.isSome_parent, eq_comm, bne_iff_ne]
      omega

theorem Visits.eq_or_isPlain (h : root.Visits ctx d) :
    d = root ∨ root.node < d.node ∧ ctx.forest.IsPlain d.node := by
  cases ReflTransGen.cases_tail h with
  | inl heq => exact .inl heq
  | inr htail =>
      obtain ⟨a, ha, hd⟩ := htail
      obtain ⟨p, -, -, hplain⟩ := Forest.mem_flattened_iff_exists.1 hd.mem_flattened
      have hle := Visits.atOrBelow ha |>.le
      have hlt := ctx.forest.lt_of_mem_flattened hd.mem_flattened
      exact .inr ⟨by omega, hplain⟩

/-- Two visited nodes that draw the same node are the same, since neither is a group in the other. -/
theorem Visits.atOrBelow_of_flattened (hl : ctx.forest.Linked) {c : Nat} (hd : root.Visits ctx d)
    (he : root.Visits ctx e) (hcd : c ∈ ctx.forest.flattened d.node)
    (hce : c ∈ ctx.forest.flattened e.node) : ctx.forest.AtOrBelow e.node d.node := by
  rcases Forest.above_of_mem_flattened hl hcd (Forest.below_of_mem_flattened hce) with h | ⟨h, -⟩
  · exact h
  · have hbelow : ctx.forest.Below d.node e.node :=
      TransGen.mono (fun _ _ (hs : ctx.forest.SeesThrough _ _) => hs.1) _ _ h
    obtain ⟨p, -, -, n, hn, hgroup⟩ := TransGen.tail'_iff.1 h
    rcases he.eq_or_isPlain with rfl | ⟨-, m, hm, hplain, -⟩
    · have hle := hd.atOrBelow.le
      have hlt := hbelow.lt
      omega
    · rw [hn] at hm
      cases hm
      rw [hgroup] at hplain
      cases hplain

theorem Draws.unique (ht : ctx.forest.Tidy) {e' : Draw} (h : d.Draws ctx e) (h' : d.Draws ctx e')
    (hnode : e.node = e'.node) : e = e' := by
  cases h with
  | @child node rendered s u before after turn drawn found entered turns earlier =>
      cases h' with
      | @child node' rendered' s' u' before' after' turn' drawn' found' entered' turns' earlier' =>
          obtain rfl := Option.some.inj (found.symm.trans found')
          rw [entered] at entered'
          cases entered'
          have hnodup := Forest.nodup_turns ht d.node
          -- No node has two turns, so that the turns before both are the same.
          have hsplit : before = before' ∧ turn :: after = turn' :: after' := by
            rw [turns'] at turns
            have hmap : before.map Turn.node = before'.map Turn.node := by
              rw [turns', List.map_append, List.map_cons] at hnodup
              have heq := congrArg (List.map Turn.node) turns
              rw [List.map_append, List.map_append, List.map_cons, List.map_cons] at heq
              have hnode' : turn.node = turn'.node := hnode
              rw [hnode'] at heq
              exact (List.append_cons_inj_of_notMem (by grind) (by grind)).1 heq |>.1.symm
            have hlength : before.length = before'.length := by
              simpa using congrArg List.length hmap
            have hinj := List.append_inj turns hlength.symm
            exact ⟨hinj.1.symm, hinj.2.symm⟩
          obtain ⟨rfl, hcons⟩ := hsplit
          cases hcons
          rw [earlier] at earlier'
          cases earlier'
          rfl

/-- No node is visited twice. -/
theorem Visits.unique (ht : ctx.forest.Tidy) (hd : root.Visits ctx d) (he : root.Visits ctx e)
    (hnode : d.node = e.node) : d = e := by
  induction hd generalizing e with
  | refl =>
      rcases he.eq_or_isPlain with rfl | ⟨hlt, -⟩
      · rfl
      · omega
  | @tail a d ha had ih =>
      have hlt := ctx.forest.lt_of_mem_flattened had.mem_flattened
      have hle := Visits.atOrBelow ha |>.le
      cases ReflTransGen.cases_tail he with
      | inl heq =>
          subst heq
          omega
      | inr htail =>
          obtain ⟨b, hb, hbe⟩ := htail
          have hca := had.mem_flattened
          have hcb := hbe.mem_flattened
          rw [← hnode] at hcb
          -- Each of the two nodes that draw it is at or below the other.
          have hab := (Visits.atOrBelow_of_flattened ht.linked ha hb hca hcb).le
          have hba := (Visits.atOrBelow_of_flattened ht.linked hb ha hcb hca).le
          obtain rfl := ih hb (by omega)
          exact had.unique ht hbe hnode

end Draw

end DesignCompiler

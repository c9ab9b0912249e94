import DesignCompiler.Proofs.Bodies
import DesignCompiler.Proofs.Traversal
import DesignCompiler.Proofs.Written

namespace DesignCompiler

open Step Relation

variable {ctx : Context}

/-- Drawn nodes one after another, each before what is drawn below it, and the scope before and after
them. -/
inductive Context.Threads (ctx : Context) : Bool → Scope → List Rendered → Scope → Prop
  | nil {inside : Bool} {s : Scope} : Threads ctx inside s [] s
  | cons {inside : Bool} {node : Node} {s u t t' t'' : Scope} {v : Visit} {d : Rendered} {rs : List Rendered}
      (found : ctx.forest.get? d.node = some node) (enters : ctx.Enters inside node s v u d t)
      (below : Threads ctx true t d.children t') (beside : Threads ctx inside t' rs t'') :
      Threads ctx inside s (d :: rs) t''

namespace Context.Threads

variable {inside : Bool} {s t u : Scope} {d : Rendered} {rs : List Rendered}

theorem append_cons (h : ctx.Threads inside s [d] t) (h' : ctx.Threads inside t rs u) :
    ctx.Threads inside s (d :: rs) u := by
  cases h with
  | cons found enters below beside =>
      cases beside
      exact .cons found enters below h'

theorem of_drawTurns {node : Node} {turns : List Turn} {q q' : Registry}
    (hturns : ∀ turn ∈ turns, ∀ {s t : Scope} {q q' : Registry} {r : Rendered},
      exec (drawNode ctx turn.node (turn.place ctx node)) (s, q) = (.ok r, (t, q')) →
        ctx.Threads true s [r] t)
    (h : exec (drawTurns ctx node turns) (s, q) = (.ok rs, (t, q'))) : ctx.Threads true s rs t := by
  induction turns generalizing rs s q with
  | nil =>
      rw [drawTurns, List.mapM_nil, exec_pure] at h
      cases h
      exact .nil
  | cons turn turns ih =>
      obtain ⟨r, ⟨u, p⟩, rs', hr, hrs, rfl⟩ := exec_mapM_cons_eq_ok.1 h
      exact (hturns turn List.mem_cons_self hr).append_cons
        (ih (fun turn' hturn' => hturns turn' (List.mem_cons_of_mem turn hturn')) hrs)

theorem of_drawNode (hp : ctx.plugins = {}) (ht : ctx.forest.Tidy) {i : Nat} {place : Place} {r : Rendered}
    {q q' : Registry} (h : exec (drawNode ctx i place) (s, q) = (.ok r, (t, q'))) :
    ctx.Threads place.parent.isSome s [r] t := by
  -- Children come after their node, which leaves fewer nodes to come.
  induction hk : ctx.forest.size - i using Nat.strongRecOn generalizing i place r s t q q' with
  | ind k ih =>
      have hnode : r.node = i := Draw.Gives.node_eq (d := ⟨i, place, s, q⟩) hp ht ⟨_, h⟩
      obtain ⟨node, rendered, ⟨u, p⟩, found, ⟨entered, rfl, hu⟩ | ⟨entered, children, hturns, rfl⟩⟩ :=
        exec_drawNode_eq_ok h
      · cases hu
        obtain ⟨v, w, henters⟩ := exists_enters_of_enterNode entered
        refine .cons (hnode ▸ found) henters ?_ .nil
        rw [children_of_enterNode entered]
        exact .nil
      · obtain ⟨v, w, henters⟩ := exists_enters_of_enterNode entered
        refine .cons (hnode ▸ found) ⟨henters.draws, henters.opens⟩ ?_ .nil
        refine of_drawTurns (fun turn hturn s t q q' r hr => ?_) hturns
        have hlt := ctx.forest.lt_of_mem_turns hturn
        have hi : i < ctx.forest.size := (Array.getElem?_eq_some_iff.1 found).1
        exact ih _ (by omega) hr rfl

theorem grows (hp : ctx.plugins = {}) (h : ctx.Threads inside s rs t) : s.Grows t := by
  induction h with
  | nil => exact .refl _
  | cons found enters below beside ihbelow ihbeside => exact ((enters.grows hp).trans ihbelow).trans ihbeside

theorem exists_enters (hp : ctx.plugins = {}) (h : ctx.Threads inside s rs t)
    (hd : d ∈ rs.flatMap Rendered.subtrees) :
    ∃ inside node s' v u t', ctx.forest.get? d.node = some node ∧
      ctx.Enters inside node s' v u d t' ∧ s.Grows s' ∧ t'.Grows t := by
  induction h with
  | nil => cases hd
  | cons found enters below beside ihbelow ihbeside =>
      have hown := enters.grows hp
      rw [List.flatMap_cons, Rendered.subtrees_eq, List.cons_append, List.mem_cons, List.mem_append] at hd
      rcases hd with rfl | hd | hd
      · exact ⟨_, _, _, _, _, _, found, enters, .refl _, (below.grows hp).trans (beside.grows hp)⟩
      · obtain ⟨inside', node', s', v', u', t', found', henters, hs, ht⟩ := ihbelow hd
        exact ⟨inside', node', s', v', u', t', found', henters, hown.trans hs, ht.trans (beside.grows hp)⟩
      · obtain ⟨inside', node', s', v', u', t', found', henters, hs, ht⟩ := ihbeside hd
        exact ⟨inside', node', s', v', u', t', found', henters,
          (hown.trans (below.grows hp)).trans hs, ht⟩

end Context.Threads

namespace Component.IsDrawn

variable {c : Component} {d : Rendered}

theorem exists_threads (hp : ctx.plugins = {}) (ht : ctx.forest.Tidy) (h : c.IsDrawn ctx) :
    ∃ node, ctx.forest.get? c.root = some node ∧
      ctx.Threads false (.start ctx (ctx.nameOf node)) [c.body] c.scope := by
  obtain ⟨node, r, t, found, hdraw, -⟩ := h
  exact ⟨node, found, Context.Threads.of_drawNode hp ht hdraw⟩

theorem exists_composed (hp : ctx.plugins = {}) (ht : ctx.forest.Tidy) (h : c.IsDrawn ctx)
    (hd : d ∈ c.body.subtrees) :
    ∃ inside node s i w v u t, ctx.forest.get? d.node = some node ∧
      ctx.Enters inside node s v u d t ∧ d.Composed ctx inside node s i w v u t ∧ t.Grows c.scope := by
  obtain ⟨_, -, hthreads⟩ := h.exists_threads hp ht
  rw [← List.flatMap_singleton Rendered.subtrees c.body] at hd
  obtain ⟨inside, node, s, v, u, t, found, henters, -, hgrows⟩ := hthreads.exists_enters hp hd
  obtain ⟨i, w, hcomposed⟩ := henters.exists_composed hp
  exact ⟨inside, node, s, i, w, v, u, t, found, henters, hcomposed, hgrows⟩

theorem exists_node (hp : ctx.plugins = {}) (ht : ctx.forest.Tidy) (h : c.IsDrawn ctx) {j : Nat}
    (hj : j ∈ c.body.nodes) : ∃ node, ctx.forest.get? j = some node := by
  obtain ⟨d, hd, rfl⟩ := List.mem_map.1 hj
  obtain ⟨_, node, _, _, _, _, _, _, found, -⟩ := h.exists_composed hp ht hd
  exact ⟨node, found⟩

theorem shown (hp : ctx.plugins = {}) (ht : ctx.forest.Tidy) (h : c.IsDrawn ctx) :
    c.body.node = c.root ∧ c.body.nodes.Nodup ∧ ∀ j, j ∈ c.body.nodes ↔ ctx.Shows c.root j := by
  obtain ⟨node, r, t, -, hdraw, -⟩ := h
  have hgives : Draw.Gives ctx ⟨c.root, {}, .start ctx (ctx.nameOf node), r⟩ c.body := ⟨_, hdraw⟩
  have hcovers := hgives.covers hp ht rfl
  exact ⟨hgives.node_eq hp ht, hcovers.nodup_nodes, hcovers.drawn_iff⟩

end Component.IsDrawn

end DesignCompiler

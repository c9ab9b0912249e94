import DesignCompiler.Proofs.Edits

namespace DesignCompiler

open Step

namespace Step

variable {σ α β : Type} {accepted : DesignError → Prop}

/-- The same outcome, unless the first one is an accepted error. -/
def Follows (accepted : DesignError → Prop) (p q : Except DesignError α × σ) : Prop :=
  p = q ∨ ∃ e s, p = (.error e, s) ∧ accepted e

def Tracks (accepted : DesignError → Prop) (x y : Step σ α) : Prop :=
  ∀ s, Follows accepted (exec x s) (exec y s)

theorem Follows.refl (p : Except DesignError α × σ) : Follows accepted p p := .inl rfl

namespace Tracks

theorem refl (x : Step σ α) : Tracks accepted x x := fun _ => .inl rfl

theorem bind {x y : Step σ α} {f g : α → Step σ β} (hx : Tracks accepted x y)
    (hf : ∀ a, Tracks accepted (f a) (g a)) : Tracks accepted (x >>= f) (y >>= g) := by
  intro s
  rw [exec_bind, exec_bind]
  rcases hx s with h | ⟨e, t, h, ha⟩
  · rw [h]
    rcases exec y s with ⟨e | a, t⟩
    · exact .refl _
    · exact hf a t
  · rw [h]
    exact .inr ⟨e, t, rfl, ha⟩

theorem mapM {f g : α → Step σ β} {l : List α} (hf : ∀ a ∈ l, Tracks accepted (f a) (g a)) :
    Tracks accepted (l.mapM f) (l.mapM g) := by
  induction l with
  | nil => exact refl _
  | cons a l ih =>
      rw [List.mapM_cons, List.mapM_cons]
      exact bind (hf a (by simp)) fun b =>
        bind (ih fun c hc => hf c (by simp [hc])) fun bs => refl _

theorem forM {f g : α → Step σ PUnit} {l : List α} (hf : ∀ a ∈ l, Tracks accepted (f a) (g a)) :
    Tracks accepted (l.forM f) (l.forM g) := by
  induction l with
  | nil => exact refl _
  | cons a l ih => exact bind (hf a (by simp)) fun _ => ih fun c hc => hf c (by simp [hc])

theorem exec_eq {x y : Step σ α} (h : Tracks (fun _ => False) x y) (s : σ) : exec x s = exec y s := by
  rcases h s with heq | ⟨e, t, -, hfalse⟩
  · exact heq
  · exact hfalse.elim

end Tracks

end Step

section Visits

variable {ctx : Context}

theorem node_foldl_apply (plugins : List StylePlugin) (w : Work) :
    (plugins.foldl (fun w p => p.apply ctx w) w).visit.node = w.visit.node := by
  induction plugins generalizing w with
  | nil => rfl
  | cons p plugins ih => exact (ih _).trans (Work.Edits.applyStyle p w).node_eq

theorem node_applyStyles (w : Work) : (w.applyStyles ctx).visit.node = w.visit.node :=
  node_foldl_apply _ w

theorem node_apply (ctx : Context) (nested : Option (Registering Component)) (p : ContentPlugin)
    (w : Work) (r : Registry) :
    (exec (p.apply ctx nested) (w, r)).2.1.visit.node = w.visit.node := by
  by_cases hp : p = .nestedComponent
  · subst hp
    cases nested with
    | none => rfl
    | some build =>
        change (exec (drawNested ctx (some build)) (w, r)).2.1.visit.node = _
        rw [exec_drawNested_some]
        split
        · rcases exec build r with ⟨e | c, s⟩ <;> rfl
        · exact (Work.Edits.addDescription w).node_eq
  · obtain ⟨v, hv, hedits⟩ := Work.Edits.apply ctx nested hp w r
    rw [hv]
    exact hedits.node_eq

theorem node_runPlugins (ctx : Context) (nested : Option (Registering Component))
    (plugins : List ContentPlugin) (w : Work) (r : Registry) :
    (exec (runPlugins ctx nested plugins) (w, r)).2.1.visit.node = w.visit.node := by
  induction plugins generalizing w r with
  | nil => rfl
  | cons p plugins ih =>
      have hp := node_apply ctx nested p w r
      rw [exec_runPlugins_cons]
      rcases hs : exec (p.apply ctx nested) (w, r) with ⟨e | u, v, s⟩ <;> rw [hs] at hp
      · exact hp
      · exact (ih v s).trans hp

theorem node_start (node : Node) (place : Place) : (Visit.start node place).node = node := by
  unfold Visit.start
  dsimp only
  split <;> rfl

end Visits

variable {ctx ctx' : Context} {accepted : DesignError → Prop}

/-- Two contexts of one forest whose plugins, on the nodes of the forest, keep in step. -/
structure Context.KeepsStep (accepted : DesignError → Prop) (ctx ctx' : Context) : Prop where
  forest_eq : ctx.forest = ctx'.forest
  plugins_eq : ctx.plugins = ctx'.plugins
  nameOf_eq : ∀ node, ctx.nameOf node = ctx'.nameOf node
  start_eq : ∀ name, Scope.start ctx name = Scope.start ctx' name
  ofBody_eq : ∀ i node body scope,
    Component.ofBody ctx i node body scope = Component.ofBody ctx' i node body scope
  addDescription_eq : ∀ w : Work, w.addDescription ctx = w.addDescription ctx'
  style : ∀ i (w : Work), ctx.forest.get? i = some w.visit.node → ∀ p : StylePlugin,
    p.apply ctx w = p.apply ctx' w
  vector : ∀ i (w : Work), ctx.forest.get? i = some w.visit.node → ∀ r : Registry,
    Follows accepted (exec (drawVector ctx) (w, r)) (exec (drawVector ctx') (w, r))

namespace Context.KeepsStep

theorem applyStyles (h : KeepsStep accepted ctx ctx') {i : Nat} {w : Work}
    (found : ctx.forest.get? i = some w.visit.node) : w.applyStyles ctx = w.applyStyles ctx' := by
  rw [Work.applyStyles, Work.applyStyles, h.plugins_eq]
  induction ctx'.plugins.style generalizing w with
  | nil => rfl
  | cons p plugins ih =>
      rw [List.foldl_cons, List.foldl_cons, ← h.style i w found p]
      exact ih (found.trans (congrArg some (Work.Edits.applyStyle p w).node_eq.symm))

theorem drawNested (h : KeepsStep accepted ctx ctx') {build build' : Registering Component}
    (hb : Tracks accepted build build') :
    Tracks accepted (drawNested ctx (some build)) (drawNested ctx' (some build')) := by
  intro (w, r)
  rw [exec_drawNested_some, exec_drawNested_some, h.nameOf_eq, h.addDescription_eq]
  split
  · rcases hb r with heq | ⟨e, s, heq, ha⟩ <;> rw [heq]
    · exact .refl _
    · exact .inr ⟨e, _, rfl, ha⟩
  · exact .refl _

theorem apply (h : KeepsStep accepted ctx ctx') {i : Nat} {place : Place}
    (hb : ∀ p, place.parent = some p → Tracks accepted (buildComponent ctx i) (buildComponent ctx' i))
    (p : ContentPlugin) {w : Work} (found : ctx.forest.get? i = some w.visit.node) (r : Registry) :
    Follows accepted (exec (p.apply ctx (nestedBuild ctx i place)) (w, r))
      (exec (p.apply ctx' (nestedBuild ctx' i place)) (w, r)) := by
  cases p with
  | nestedComponent =>
      cases hplace : place.parent with
      | none =>
          rw [nestedBuild, nestedBuild, hplace]
          exact .refl _
      | some parent =>
          rw [nestedBuild, nestedBuild, hplace]
          exact h.drawNested (hb parent hplace) (w, r)
  | renderVector => exact h.vector i w found r
  | _ => exact .refl _

theorem runPlugins (h : KeepsStep accepted ctx ctx') {i : Nat} {place : Place}
    (hb : ∀ p, place.parent = some p → Tracks accepted (buildComponent ctx i) (buildComponent ctx' i))
    (plugins : List ContentPlugin) {w : Work} (found : ctx.forest.get? i = some w.visit.node)
    (r : Registry) :
    Follows accepted (exec (runPlugins ctx (nestedBuild ctx i place) plugins) (w, r))
      (exec (runPlugins ctx' (nestedBuild ctx' i place) plugins) (w, r)) := by
  induction plugins generalizing w r with
  | nil => exact .refl _
  | cons p plugins ih =>
      have hnode := node_apply ctx (nestedBuild ctx i place) p w r
      rw [exec_runPlugins_cons, exec_runPlugins_cons]
      rcases h.apply hb p found r with heq | ⟨e, s, heq, ha⟩
      · rw [← heq]
        rcases hs : exec (p.apply ctx (nestedBuild ctx i place)) (w, r) with ⟨e | u, v, s⟩ <;>
          rw [hs] at hnode
        · exact .refl _
        · exact ih (found.trans (congrArg some hnode.symm)) s
      · rw [heq]
        exact .inr ⟨e, s, rfl, ha⟩

theorem enterNode (h : KeepsStep accepted ctx ctx') {i : Nat} {place : Place}
    (hb : ∀ p, place.parent = some p → Tracks accepted (buildComponent ctx i) (buildComponent ctx' i))
    {node : Node} (found : ctx.forest.get? i = some node) :
    Tracks accepted (enterNode ctx i node place) (enterNode ctx' i node place) := by
  refine Tracks.bind ?_ fun v => Tracks.refl _
  intro (scope, r)
  have hstart : ctx.forest.get? i = some (Visit.start node place).node := by rw [node_start, found]
  have hstyled : ctx.forest.get? i =
      some (Work.applyStyles ctx ⟨.start node place, scope⟩).visit.node := by
    rw [node_applyStyles]
    exact hstart
  rw [exec_draw, exec_draw, ← h.applyStyles (w := ⟨.start node place, scope⟩) hstart, ← h.plugins_eq]
  rcases h.runPlugins hb ctx.plugins.content hstyled r with heq | ⟨e, s, heq, ha⟩ <;> rw [heq]
  · exact .refl _
  · exact .inr ⟨e, _, rfl, ha⟩

theorem buildBody (h : KeepsStep accepted ctx ctx') {i : Nat}
    (hd : Tracks accepted (drawNode ctx i {}) (drawNode ctx' i {})) (node : Node) :
    Tracks accepted (buildBody ctx i node) (buildBody ctx' i node) := by
  intro r
  rw [exec_buildBody, exec_buildBody, ← h.nameOf_eq, ← h.start_eq]
  rcases hd (.start ctx (ctx.nameOf node), r) with heq | ⟨e, s, heq, ha⟩
  · rw [← heq]
    rcases exec (drawNode ctx i {}) (.start ctx (ctx.nameOf node), r) with ⟨e | body, scope, s⟩
    · exact .refl _
    · dsimp only
      rw [h.ofBody_eq]
      exact .refl _
  · rw [heq]
    exact .inr ⟨e, _, rfl, ha⟩

end Context.KeepsStep

theorem Registry.tracks_buildOnce {build build' : Registering Component}
    (hb : Tracks accepted build build') (name : String) :
    Tracks accepted (buildOnce name build) (buildOnce name build') := by
  intro r
  rw [exec_buildOnce, exec_buildOnce]
  split
  · exact .refl _
  · split
    · exact .refl _
    · rcases hb (r.opened name) with heq | ⟨e, s, heq, ha⟩ <;> rw [heq]
      · exact .refl _
      · exact .inr ⟨e, _, rfl, ha⟩

theorem Context.KeepsStep.tracks_calls (h : KeepsStep accepted ctx ctx') :
    (∀ i place, Tracks accepted (drawNode ctx i place) (drawNode ctx' i place)) ∧
      ∀ i, Tracks accepted (buildComponent ctx i) (buildComponent ctx' i) := by
  have hplace : ∀ (t : Turn) (node : Node), t.place ctx' node = t.place ctx node := by
    intro t node
    rw [Turn.place, Turn.place, h.forest_eq]
  refine drawNode.mutual_induct ctx
    (fun i place => Tracks accepted (drawNode ctx i place) (drawNode ctx' i place))
    (fun i => Tracks accepted (buildComponent ctx i) (buildComponent ctx' i)) ?_ ?_ ?_ ?_
  · intro i place missing
    rw [drawNode_of_none missing, drawNode_of_none (h.forest_eq ▸ missing)]
    exact Tracks.refl _
  · intro i place node found hnested hchildren
    rw [drawNode_of_some found, drawNode_of_some (h.forest_eq ▸ found), ← h.forest_eq]
    refine Tracks.bind (h.enterNode hnested found) ?_
    rintro ⟨cleared, rendered⟩
    cases cleared with
    | true => exact Tracks.refl _
    | false =>
        refine Tracks.bind (Tracks.mapM fun t ht => ?_) fun children => Tracks.refl _
        rw [hplace]
        exact hchildren t ht
  · intro i missing
    rw [buildComponent_of_none missing, buildComponent_of_none (h.forest_eq ▸ missing)]
    exact Tracks.refl _
  · intro i node found hdraw
    rw [buildComponent_of_some found, buildComponent_of_some (h.forest_eq ▸ found), ← h.nameOf_eq]
    exact Registry.tracks_buildOnce (h.buildBody hdraw node) _

end DesignCompiler

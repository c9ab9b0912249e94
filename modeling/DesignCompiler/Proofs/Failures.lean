import DesignCompiler.Proofs.Growth
import DesignCompiler.Proofs.Lockstep
import DesignCompiler.Proofs.Masks

namespace DesignCompiler

open Step Relation

namespace Step

variable {σ α β : Type}

theorem exec_bind_eq_error {x : Step σ α} {f : α → Step σ β} {e : DesignError} {s u : σ} :
    exec (x >>= f) s = (.error e, u) ↔ exec x s = (.error e, u) ∨
      ∃ a t, exec x s = (.ok a, t) ∧ exec (f a) t = (.error e, u) := by
  rw [exec_bind]
  rcases exec x s with ⟨e' | a, t⟩ <;> simp [and_assoc]

theorem exec_mapM_eq_error {f : α → Step σ β} {l : List α} {e : DesignError} {s u : σ} :
    exec (l.mapM f) s = (.error e, u) ↔ ∃ before a after bs t, l = before ++ a :: after ∧
      exec (before.mapM f) s = (.ok bs, t) ∧ exec (f a) t = (.error e, u) := by
  constructor
  · intro h
    induction l generalizing s with
    | nil =>
        rw [List.mapM_nil, exec_pure] at h
        cases h
    | cons a l ih =>
        rw [List.mapM_cons] at h
        rcases exec_bind_eq_error.1 h with h | ⟨b, t, hb, h⟩
        · exact ⟨[], a, l, [], s, rfl, rfl, h⟩
        · rcases exec_bind_eq_error.1 h with h | ⟨bs, t', -, h⟩
          · obtain ⟨before, a', after, bs, v, rfl, hbefore, ha⟩ := ih h
            refine ⟨a :: before, a', after, b :: bs, v, rfl, ?_, ha⟩
            exact exec_mapM_cons_eq_ok.2 ⟨b, t, bs, hb, hbefore, rfl⟩
          · cases h
  · rintro ⟨before, a, after, bs, t, rfl, hbefore, ha⟩
    rw [List.mapM_append, List.mapM_cons]
    refine exec_bind_eq_error.2 (.inr ⟨bs, t, hbefore, ?_⟩)
    exact exec_bind_eq_error.2 (.inl (exec_bind_eq_error.2 (.inl ha)))

theorem exec_forM_eq_error {f : α → Step σ PUnit} {l : List α} {e : DesignError} {s u : σ} :
    exec (l.forM f) s = (.error e, u) ↔ ∃ before a after t, l = before ++ a :: after ∧
      exec (before.forM f) s = (.ok PUnit.unit, t) ∧ exec (f a) t = (.error e, u) := by
  constructor
  · intro h
    induction l generalizing s with
    | nil => cases h
    | cons a l ih =>
        rcases exec_bind_eq_error.1 h with h | ⟨b, t, hb, h⟩
        · exact ⟨[], a, l, s, rfl, rfl, h⟩
        · obtain ⟨before, a', after, v, rfl, hbefore, ha⟩ := ih h
          exact ⟨a :: before, a', after, v, rfl, exec_bind_eq_ok.2 ⟨b, t, hb, hbefore⟩, ha⟩
  · rintro ⟨before, a, after, t, rfl, hbefore, ha⟩
    have happend : (before ++ a :: after).forM f = before.forM f >>= fun _ => (a :: after).forM f :=
      List.forM_append
    rw [happend]
    exact exec_bind_eq_error.2 (.inr ⟨_, t, hbefore, exec_bind_eq_error.2 (.inl ha)⟩)

end Step

variable {ctx : Context}

theorem exec_drawNested_eq_error {nested : Option (Registering Component)} {w : Work} {r : Registry}
    {e : DesignError} :
    (∃ u, exec (drawNested ctx nested) (w, r) = (.error e, u)) ↔
      ∃ build s, nested = some build ∧ w.visit.node.attrs.isComponentRoot ∧
        exec build r = (.error e, s) := by
  cases nested with
  | none => simp [exec_drawNested_none]
  | some build =>
      rw [exec_drawNested_some]
      by_cases root : w.visit.node.attrs.isComponentRoot
      · rcases hb : exec build r with ⟨e' | c, s⟩ <;> simp [root, hb]
      · simp [root]

theorem exec_drawVector_eq_error {w : Work} {r : Registry} {e : DesignError} :
    (∃ u, exec (drawVector ctx) (w, r) = (.error e, u)) ↔
      ∃ m, (w.drawVector ctx).1 = .error m ∧ e = .markup m := by
  rw [exec_drawVector]
  rcases (w.drawVector ctx).1 with m | a
  · simp [Except.mapError, eq_comm]
  · simp [Except.mapError]

theorem ContentPlugin.apply_eq_error {nested : Option (Registering Component)} {p : ContentPlugin}
    {w : Work} {r : Registry} {e : DesignError} {u : Work × Registry}
    (h : exec (p.apply ctx nested) (w, r) = (.error e, u)) :
    (p = .nestedComponent ∧ ∃ build s, nested = some build ∧ w.visit.node.attrs.isComponentRoot ∧
        exec build r = (.error e, s)) ∨
      (p = .renderVector ∧ ∃ m, (w.drawVector ctx).1 = .error m ∧ e = .markup m) := by
  cases p with
  | nestedComponent => exact .inl ⟨rfl, exec_drawNested_eq_error.1 ⟨u, h⟩⟩
  | renderVector => exact .inr ⟨rfl, exec_drawVector_eq_error.1 ⟨u, h⟩⟩
  | _ => cases h

theorem exec_enterNode_eq_error {i : Nat} {node : Node} {place : Place} {scope : Scope} {r : Registry}
    {e : DesignError} :
    (∃ u, exec (enterNode ctx i node place) (scope, r) = (.error e, u)) ↔
      ∃ u, exec (runPlugins ctx (nestedBuild ctx i place) ctx.plugins.content)
        (Work.applyStyles ctx ⟨.start node place, scope⟩, r) = (.error e, u) := by
  have hdraw : ∀ u, exec (enterNode ctx i node place) (scope, r) = (.error e, u) ↔
      exec ((Visit.start node place).draw ctx (nestedBuild ctx i place)) (scope, r) = (.error e, u) := by
    intro u
    rw [enterNode, exec_bind_eq_error, or_iff_left]
    rintro ⟨v, t, -, h⟩
    cases h
  simp only [hdraw, exec_draw]
  rcases exec (runPlugins ctx (nestedBuild ctx i place) ctx.plugins.content) _ with ⟨e' | u, w, s⟩
  · simp
  · simp

namespace Call

def Fails (ctx : Context) : Call → DesignError → Prop
  | .draw d, e => ∃ t, exec (drawNode ctx d.node d.place) (d.scope, d.registry) = (.error e, t)
  | .build i r, e => ∃ s, exec (buildComponent ctx i) r = (.error e, s)

/-- What a call fails with by itself, and not because another call in it does. -/
inductive Raises (ctx : Context) : Call → DesignError → Prop
  | missing {d : Draw} (absent : ctx.forest.get? d.node = none) :
      Raises ctx (.draw d) (.compile (.nodeNotFound d.node))
  | missingRoot {i : Nat} {r : Registry} (absent : ctx.forest.get? i = none) :
      Raises ctx (.build i r) (.compile (.nodeNotFound i))
  | recursive {i : Nat} {node : Node} {r : Registry} (found : ctx.forest.get? i = some node)
      (unfinished : r.components.lookup (ctx.nameOf node) = none)
      (opened : ctx.nameOf node ∈ r.building) :
      Raises ctx (.build i r) (.compile (.recursiveComponent (ctx.nameOf node)))
  | vector {d : Draw} {node : Node} {before after : List ContentPlugin} {w : Work} {r : Registry}
      {m : MarkupError} (found : ctx.forest.get? d.node = some node)
      (plugins : ctx.plugins.content = before ++ .renderVector :: after)
      (earlier : exec (runPlugins ctx (nestedBuild ctx d.node d.place) before)
        (Work.applyStyles ctx ⟨.start node d.place, d.scope⟩, d.registry) = (.ok (), (w, r)))
      (unread : (w.drawVector ctx).1 = .error m) :
      Raises ctx (.draw d) (.markup m)

variable {c c' : Call} {e : DesignError}

theorem fails_draw {d : Draw} {node : Node} (found : ctx.forest.get? d.node = some node) :
    (Call.draw d).Fails ctx e ↔
      (∃ u, exec (enterNode ctx d.node node d.place) (d.scope, d.registry) = (.error e, u)) ∨
      ∃ rendered t u, exec (enterNode ctx d.node node d.place) (d.scope, d.registry) =
          (.ok (false, rendered), t) ∧
        exec (drawTurns ctx node (ctx.forest.buckets d.node).turns) t = (.error e, u) := by
  rw [Fails, exec_drawNode_of_some found]
  rcases exec (enterNode ctx d.node node d.place) (d.scope, d.registry)
    with ⟨e' | ⟨_ | _, rendered⟩, t⟩
  · simp
  · simp only [Prod.mk.injEq, reduceCtorEq, false_and, exists_false, false_or, Except.ok.injEq,
      true_and]
    rcases hturns : exec (drawTurns ctx node (ctx.forest.buckets d.node).turns) t with ⟨e' | children, u⟩
    · simp [hturns]
    · simp [hturns]
  · simp

theorem fails_build {i : Nat} {node : Node} {r : Registry} (found : ctx.forest.get? i = some node)
    (unfinished : r.components.lookup (ctx.nameOf node) = none) (unopened : ctx.nameOf node ∉ r.building) :
    (Call.build i r).Fails ctx e ↔ (Call.draw ⟨i, {}, .start ctx (ctx.nameOf node),
      r.opened (ctx.nameOf node)⟩).Fails ctx e := by
  rw [Fails, Fails, buildComponent_of_some found, Registry.exec_buildOnce, unfinished]
  simp only [unopened, if_false, exec_buildBody]
  rcases exec (drawNode ctx i {}) (.start ctx (ctx.nameOf node), r.opened (ctx.nameOf node))
    with ⟨e' | body, scope, s⟩
  · simp
  · simp

theorem Raises.fails (h : c.Raises ctx e) : c.Fails ctx e := by
  cases h with
  | missing absent => exact ⟨_, by rw [drawNode_of_none absent]; rfl⟩
  | missingRoot absent => exact ⟨_, by rw [buildComponent_of_none absent]; rfl⟩
  | @recursive i node r found unfinished opened =>
      refine ⟨r, ?_⟩
      rw [buildComponent_of_some found, Registry.exec_buildOnce, unfinished]
      simp only [opened, if_true]
  | @vector d node before after w r m found plugins earlier unread =>
      obtain ⟨u, hu⟩ := exec_drawVector_eq_error.2 ⟨m, unread, rfl⟩
      refine (fails_draw found).2 (.inl (exec_enterNode_eq_error.2 ⟨u, ?_⟩))
      exact exec_forM_eq_error.2 ⟨before, .renderVector, after, (w, r), plugins, earlier, hu⟩

theorem Makes.fails (h : Call.Makes ctx c c') (hf : c'.Fails ctx e) : c.Fails ctx e := by
  cases h with
  | child hd =>
      cases hd with
      | @child node rendered s u before after t drawn found entered turns earlier =>
          obtain ⟨v, hv⟩ := hf
          refine (fails_draw found).2 (.inr ⟨rendered, s, v, entered, ?_⟩)
          exact exec_mapM_eq_error.2 ⟨before, t, after, drawn, u, turns, earlier, hv⟩
  | @nested d node before after w r found inside plugins earlier root =>
      obtain ⟨s, hs⟩ := hf
      obtain ⟨u, hu⟩ := exec_drawNested_eq_error.2 ⟨_, s, rfl, root, hs⟩
      refine (fails_draw found).2 (.inl (exec_enterNode_eq_error.2 ⟨u, ?_⟩))
      rw [nestedBuild_of_isSome inside]
      exact exec_forM_eq_error.2 ⟨before, .nestedComponent, after, (w, r), plugins, earlier, hu⟩
  | body found unfinished unopened => exact (fails_build found unfinished unopened).2 hf

theorem Reaches.fails (h : Call.Reaches ctx c c') (hf : c'.Fails ctx e) : c.Fails ctx e := by
  induction h with
  | refl => exact hf
  | tail _ hmakes ih => exact ih (hmakes.fails hf)

/-- The induction of the drawing of a node and the build of a component. -/
theorem exists_raises_calls (ctx : Context) :
    (∀ i place scope r e, (Call.draw ⟨i, place, scope, r⟩).Fails ctx e →
        ∃ c, Call.Reaches ctx (.draw ⟨i, place, scope, r⟩) c ∧ c.Raises ctx e) ∧
      ∀ i r e, (Call.build i r).Fails ctx e →
        ∃ c, Call.Reaches ctx (.build i r) c ∧ c.Raises ctx e := by
  refine drawNode.mutual_induct ctx
    (fun i place => ∀ scope r e, (Call.draw ⟨i, place, scope, r⟩).Fails ctx e →
      ∃ c, Call.Reaches ctx (.draw ⟨i, place, scope, r⟩) c ∧ c.Raises ctx e)
    (fun i => ∀ r e, (Call.build i r).Fails ctx e →
      ∃ c, Call.Reaches ctx (.build i r) c ∧ c.Raises ctx e) ?_ ?_ ?_ ?_
  · rintro i place absent scope r e ⟨t, h⟩
    rw [drawNode_of_none absent, exec_throw] at h
    cases h
    exact ⟨_, .refl, .missing absent⟩
  -- A node fails with one of its plugins, which may be the build of a nested component, or with a child.
  · intro i place node found hnested hchildren scope r e h
    rcases (fails_draw found).1 h with hentered | ⟨rendered, s, u, entered, hturns⟩
    · obtain ⟨u, hplugins⟩ := exec_enterNode_eq_error.1 hentered
      obtain ⟨before, p, after, ⟨w, q⟩, plugins, earlier, hp⟩ := exec_forM_eq_error.1 hplugins
      rcases ContentPlugin.apply_eq_error hp
        with ⟨rfl, build, s, hplace, root, hbuild⟩ | ⟨rfl, m, unread, rfl⟩
      · obtain ⟨parent, hparent, rfl⟩ := Option.map_eq_some_iff.1 hplace
        rw [hplace] at earlier
        obtain ⟨c, hreach, hraises⟩ := hnested parent hparent q e ⟨s, hbuild⟩
        refine ⟨c, .head (.nested found ?_ plugins earlier root) hreach, hraises⟩
        rw [hparent]
        rfl
      · exact ⟨_, .refl, .vector found plugins earlier unread⟩
    · obtain ⟨before, t, after, drawn, ⟨scope', q⟩, turns, earlier, ht⟩ := exec_mapM_eq_error.1 hturns
      obtain ⟨c, hreach, hraises⟩ :=
        hchildren t (by rw [turns]; simp) scope' q e ⟨u, ht⟩
      exact ⟨c, .head (.child (.child found entered turns earlier)) hreach, hraises⟩
  · rintro i absent r e ⟨s, h⟩
    rw [buildComponent_of_none absent, exec_throw] at h
    cases h
    exact ⟨_, .refl, .missingRoot absent⟩
  · rintro i node found hdraw r e ⟨s, h⟩
    have hbuild := h
    rw [buildComponent_of_some found, Registry.exec_buildOnce] at h
    split at h
    · cases h
    · next unfinished =>
      split at h
      · next opened =>
        cases h
        exact ⟨_, .refl, .recursive found unfinished opened⟩
      · next unopened =>
        obtain ⟨c, hreach, hraises⟩ :=
          hdraw _ _ e ((fails_build found unfinished unopened).1 ⟨s, hbuild⟩)
        exact ⟨c, .head (.body found unfinished unopened) hreach, hraises⟩

/-- A call fails just with what a call in it raises. -/
theorem fails_iff : c.Fails ctx e ↔ ∃ c', Call.Reaches ctx c c' ∧ c'.Raises ctx e := by
  constructor
  · intro h
    cases c with
    | draw d => exact (exists_raises_calls ctx).1 d.node d.place d.scope d.registry e h
    | build i r => exact (exists_raises_calls ctx).2 i r e h
  · rintro ⟨c', hreach, hraises⟩
    exact hreach.fails hraises.fails

end Call

theorem Work.drawVector_eq_error {w : Work} {m : MarkupError} (h : (w.drawVector ctx).1 = .error m) :
    (ctx.options.strictMarkup || m.endsRun) ∧ ∃ markup className,
      ctx.resources.vectors.lookup w.visit.node.attrs.id = some markup ∧
        Markup.transcode markup { source := w.visit.node.attrs.id, className := some className } =
          .error m := by
  unfold Work.drawVector at h
  dsimp only at h
  split at h
  · cases h
  · split at h
    · cases h
    · next markup hmarkup =>
      split at h
      · split at h <;> cases h
      · split at h
        · cases h
        · next e hdrawn =>
          split at h
          · next hstops =>
            cases h
            exact ⟨hstops, markup, _, hmarkup, hdrawn⟩
          · cases h

theorem Markup.closedTwice_of_transcode {markup source className : String} {m : MarkupError}
    (h : transcode markup { source, className := some className } = .error m) (hm : m.endsRun) :
    m = .closedTwice source ∧ Element.parse markup = .error .closedTwice := by
  unfold transcode at h
  split at h
  · next failure hparse =>
    cases h
    cases failure with
    | malformed => cases hm
    | closedTwice => exact ⟨rfl, hparse⟩
  · cases h

def Call.node : Call → Nat
  | .draw d => d.node
  | .build i _ => i

theorem Call.Makes.isSome_get? {c c' : Call} (h : Call.Makes ctx c c') :
    (ctx.forest.get? c'.node).isSome := by
  cases h with
  | child hd =>
      obtain ⟨-, -, -, n, hn, -⟩ := Forest.mem_flattened_iff_exists.1 (Forest.schedules_iff.1 hd.schedules)
      exact Option.isSome_of_eq_some hn
  | nested found => exact Option.isSome_of_eq_some found
  | body found => exact Option.isSome_of_eq_some found

theorem Call.Reaches.isSome_get? {c c' : Call} (h : Call.Reaches ctx c c')
    (hc : (ctx.forest.get? c.node).isSome) : (ctx.forest.get? c'.node).isSome := by
  cases ReflTransGen.cases_tail h with
  | inl heq => exact heq ▸ hc
  | inr htail =>
      obtain ⟨_, -, hmakes⟩ := htail
      exact hmakes.isSome_get?

/-- A build that passes over vectors fails only by recursion, or by markup that no reading survives. -/
theorem Call.Fails.cases_of_lenient (hlenient : ctx.options.strictMarkup = false) {c : Call}
    {e : DesignError} (h : c.Fails ctx e) (hc : (ctx.forest.get? c.node).isSome) :
    (∃ name, e = .compile (.recursiveComponent name)) ∨
      ∃ id markup, e = .markup (.closedTwice id) ∧ ctx.resources.vectors.lookup id = some markup ∧
        Markup.Element.parse markup = .error .closedTwice := by
  obtain ⟨c', hreach, hraises⟩ := Call.fails_iff.1 h
  have hfound := hreach.isSome_get? hc
  cases hraises with
  | missing absent =>
      rw [Call.node, absent] at hfound
      cases hfound
  | missingRoot absent =>
      rw [Call.node, absent] at hfound
      cases hfound
  | recursive => exact .inl ⟨_, rfl⟩
  | vector _ _ _ unread =>
      obtain ⟨hends, markup, className, hlookup, hdrawn⟩ := Work.drawVector_eq_error unread
      rw [hlenient, Bool.false_or] at hends
      obtain ⟨rfl, hparse⟩ := Markup.closedTwice_of_transcode hdrawn hends
      exact .inr ⟨_, markup, rfl, hlookup, hparse⟩

end DesignCompiler

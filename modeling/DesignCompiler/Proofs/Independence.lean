import DesignCompiler.Proofs.Growth

namespace DesignCompiler

open Step Registry

variable {ctx : Context} {suffix : String} {σ α β : Type}

/-- Runs of a step from one state, with any two sound registries beside it, give the same result and
the same state where both of them succeed. -/
def Agrees (suffix : String) (x : Step (σ × Registry) α) : Prop :=
  ∀ s r q, r.Sound suffix → q.Sound suffix → ∀ a b t u,
    exec x (s, r) = (.ok a, t) → exec x (s, q) = (.ok b, u) → a = b ∧ t.1 = u.1

namespace Agrees

theorem pure (a : α) : Agrees suffix (Pure.pure a : Step (σ × Registry) α) := by
  intro s r q _ _ b c t u ht hu
  cases ht
  cases hu
  exact ⟨rfl, rfl⟩

theorem bind {x : Step (σ × Registry) α} {f : α → Step (σ × Registry) β}
    (hk : Keeps (OnRegistry (Extends suffix)) x) (hx : Agrees suffix x)
    (hf : ∀ a, Agrees suffix (f a)) : Agrees suffix (x >>= f) := by
  intro s r q hr hq a b t u ht hu
  obtain ⟨c, ⟨s₁, r₁⟩, hc, ht⟩ := exec_bind_eq_ok.1 ht
  obtain ⟨d, ⟨s₂, q₁⟩, hd, hu⟩ := exec_bind_eq_ok.1 hu
  have hr₁ : r₁.Sound suffix := by
    have h := hk (s, r)
    rw [hc] at h
    exact (h hr).1
  have hq₁ : q₁.Sound suffix := by
    have h := hk (s, q)
    rw [hd] at h
    exact (h hq).1
  obtain ⟨rfl, rfl⟩ := hx s r q hr hq c d _ _ hc hd
  exact hf c _ r₁ q₁ hr₁ hq₁ a b t u ht hu

theorem mapM {f : α → Step (σ × Registry) β} {l : List α}
    (hk : ∀ a ∈ l, Keeps (OnRegistry (Extends suffix)) (f a)) (hf : ∀ a ∈ l, Agrees suffix (f a)) :
    Agrees suffix (l.mapM f) := by
  induction l with
  | nil => exact pure []
  | cons a l ih =>
      rw [List.mapM_cons]
      have ha : ∀ b ∈ l, b ∈ a :: l := fun b => List.mem_cons_of_mem a
      exact bind (hk a (by simp)) (hf a (by simp)) fun b =>
        bind (Keeps.mapM fun c hc => hk c (ha c hc))
          (ih (fun c hc => hk c (ha c hc)) fun c hc => hf c (ha c hc)) fun bs => pure (b :: bs)

theorem forM {f : α → Step (σ × Registry) PUnit} {l : List α}
    (hk : ∀ a ∈ l, Keeps (OnRegistry (Extends suffix)) (f a)) (hf : ∀ a ∈ l, Agrees suffix (f a)) :
    Agrees suffix (l.forM f) := by
  induction l with
  | nil => exact pure PUnit.unit
  | cons a l ih =>
      have ha : ∀ b ∈ l, b ∈ a :: l := fun b => List.mem_cons_of_mem a
      exact bind (hk a (by simp)) (hf a (by simp)) fun _ =>
        ih (fun c hc => hk c (ha c hc)) fun c hc => hf c (ha c hc)

end Agrees

theorem useComponent_congr {c d : Component} (h : c.asImport = d.asImport) (w : Work) :
    w.useComponent c = w.useComponent d := by
  simp only [Work.useComponent, h]

theorem agrees_drawNested (i : Nat) :
    Agrees ctx.options.instanceSuffix (drawNested ctx (some (buildComponent ctx i))) := by
  intro w r q hr hq a b t u ht hu
  rw [exec_drawNested_some] at ht hu
  split at ht <;> rename_i hroot
  · rw [if_pos hroot] at hu
    rcases hc : exec (buildComponent ctx i) r with ⟨_ | c, r₁⟩ <;> rw [hc] at ht <;> cases ht
    rcases hd : exec (buildComponent ctx i) q with ⟨_ | d, q₁⟩ <;> rw [hd] at hu <;> cases hu
    obtain ⟨node, found, hnc⟩ := isNamed_of_build hr hc
    obtain ⟨other, found', hnd⟩ := isNamed_of_build hq hd
    obtain rfl := Option.some.inj (found.symm.trans found')
    refine ⟨rfl, useComponent_congr ?_ _⟩
    simp only [Component.asImport, hnc.name_eq, hnd.name_eq, hnc.file_eq, hnd.file_eq]
  · rw [if_neg hroot] at hu
    cases ht
    cases hu
    exact ⟨rfl, rfl⟩

theorem agrees_edit (f : Work → Work) : Agrees suffix (Drawing.edit f) := by
  intro w r q _ _ a b t u ht hu
  cases ht
  cases hu
  exact ⟨rfl, rfl⟩

theorem agrees_drawVector : Agrees suffix (drawVector ctx) := by
  intro w r q _ _ a b t u ht hu
  rw [exec_drawVector] at ht hu
  obtain ⟨hta, rfl⟩ := Prod.mk.inj ht
  obtain ⟨hub, rfl⟩ := Prod.mk.inj hu
  exact ⟨rfl, rfl⟩

theorem ContentPlugin.agrees_apply (i : Nat) (place : Place) (p : ContentPlugin) :
    Agrees ctx.options.instanceSuffix
      (p.apply ctx (nestedBuild ctx i place)) := by
  cases p with
  | nestedComponent =>
      rw [nestedBuild]
      cases place.parent with
      | none => exact Agrees.pure ()
      | some _ => exact agrees_drawNested i
  | renderVector => exact agrees_drawVector
  | _ => exact agrees_edit _

theorem agrees_draw (i : Nat) (place : Place) (v : Visit) :
    Agrees ctx.options.instanceSuffix
      (v.draw ctx (nestedBuild ctx i place)) := by
  have hplugins : Agrees ctx.options.instanceSuffix
      (runPlugins ctx (nestedBuild ctx i place) ctx.plugins.content) :=
    Agrees.forM (fun p _ => p.keeps_apply (keeps_nestedBuild fun _ _ => keeps_buildComponent i))
      fun p _ => p.agrees_apply i place
  intro scope r q hr hq a b t u ht hu
  rw [exec_draw] at ht hu
  rcases h₁ : exec (runPlugins ctx _ _) (Work.applyStyles ctx ⟨v, scope⟩, r) with ⟨_ | _, w₁, r₁⟩ <;>
    rw [h₁] at ht <;> cases ht
  rcases h₂ : exec (runPlugins ctx _ _) (Work.applyStyles ctx ⟨v, scope⟩, q) with ⟨_ | _, w₂, q₁⟩ <;>
    rw [h₂] at hu <;> cases hu
  obtain ⟨-, hw⟩ := hplugins _ r q hr hq _ _ _ _ h₁ h₂
  obtain rfl : w₁ = w₂ := hw
  exact ⟨rfl, rfl⟩

theorem agrees_openWrappers (v : Visit) : Agrees suffix (Building.openWrappers v) := by
  intro scope r q _ _ a b t u ht hu
  cases ht
  cases hu
  exact ⟨rfl, rfl⟩

theorem agrees_enterNode (i : Nat) (node : Node) (place : Place) :
    Agrees ctx.options.instanceSuffix (enterNode ctx i node place) :=
  Agrees.bind (keeps_draw (keeps_nestedBuild fun _ _ => keeps_buildComponent i) _)
    (agrees_draw i place _) fun v =>
      Agrees.bind (keeps_openWrappers v.finish) (agrees_openWrappers v.finish) fun _ => Agrees.pure _

theorem agrees_drawNode (i : Nat) (place : Place) :
    Agrees ctx.options.instanceSuffix (drawNode ctx i place) := by
  refine (drawNode.mutual_induct ctx
    (fun i place => Agrees ctx.options.instanceSuffix (drawNode ctx i place)) (fun _ => True)
    ?_ ?_ (fun _ _ => trivial) (fun _ _ _ _ => trivial)).1 i place
  · intro i place h
    rw [drawNode_of_none h]
    intro s r q _ _ a b t u ht
    cases ht
  · intro i place node h _ hchildren
    rw [drawNode_of_some h]
    refine Agrees.bind (keepsExtends_enterNode ctx i node place) (agrees_enterNode i node place) ?_
    rintro ⟨cleared, rendered⟩
    cases cleared with
    | true => exact Agrees.pure _
    | false =>
        exact Agrees.bind (keepsExtends_drawTurns ctx node _)
          (Agrees.mapM (fun t _ => keeps_drawNode t.node _) hchildren) fun children => Agrees.pure _

/-- The registries that a run can meet: at its beginning, after each of its builds, whether it fails or
not, and at the beginning of each call inside of one. -/
inductive Registry.Reachable (ctx : Context) : Registry → Prop
  | empty : Reachable ctx {}
  | built {r : Registry} (h : Reachable ctx r) (i : Nat) :
      Reachable ctx (exec (buildComponent ctx i) r).2
  | inside {r : Registry} {i : Nat} {c : Call} (h : Reachable ctx r)
      (hc : Call.Reaches ctx (.build i r) c) : Reachable ctx c.before

theorem Registry.Reachable.sound {r : Registry} (h : r.Reachable ctx) :
    r.Sound ctx.options.instanceSuffix := by
  induction h with
  | empty => exact Sound.empty _
  | built _ i ih => exact (keeps_buildComponent i _ ih).1
  | inside _ hc ih => exact (hc.within ih).1

/-- Whatever was built before a component, in whatever order, and whether it is built for itself or
inside of another, the component is the same in all its parts. -/
theorem component_independent {r q : Registry} (hr : r.Reachable ctx) (hq : q.Reachable ctx)
    {i : Nat} {node : Node} (found : ctx.forest.get? i = some node)
    (hrc : ctx.nameOf node ∉ r.components.keys) (hrb : ctx.nameOf node ∉ r.building)
    (hqc : ctx.nameOf node ∉ q.components.keys) (hqb : ctx.nameOf node ∉ q.building)
    {c d : Component} (hc : (exec (buildComponent ctx i) r).1 = .ok c)
    (hd : (exec (buildComponent ctx i) q).1 = .ok d) : c = d := by
  obtain ⟨-, body, scope, t, hb, rfl, -⟩ :=
    exists_body_of_build found (Table.lookup_eq_none.2 hrc) (Prod.ext hc rfl)
  obtain ⟨-, body', scope', t', hb', rfl, -⟩ :=
    exists_body_of_build found (Table.lookup_eq_none.2 hqc) (Prod.ext hd rfl)
  obtain ⟨rfl, hscope⟩ := agrees_drawNode i {} _ _ _ (hr.sound.opened hrc hrb)
    (hq.sound.opened hqc hqb) _ _ _ _ hb hb'
  obtain rfl : scope = scope' := hscope
  rfl

theorem builds_badgedCard :
    (exec (buildComponent badgedCard 0) {}).1.isOk ∧ (exec (buildComponent badgedCard 1) {}).1.isOk ∧
      (exec (buildComponent badgedCard 0) (ofBuilds badgedCard [7, 1])).1.isOk ∧
      (ofBuilds badgedCard [7, 1]).components.keys = ["Badge"] := by
  decide +kernel

/-- A card over a badge is the same whether the badge is built in it or was built before it, and so is
the badge, whether it is built for itself or in the card. -/
theorem component_independent_badgedCard :
    (∃ a, (exec (buildComponent badgedCard 0) {}).1 = .ok a ∧
      "Badge" ∈ (ofBuilds badgedCard [7, 1]).components.keys ∧
      (exec (buildComponent badgedCard 0) (ofBuilds badgedCard [7, 1])).1 = .ok a) ∧
    ∃ b r, (exec (buildComponent badgedCard 1) {}).1 = .ok b ∧ r.building = ["Card"] ∧
      (exec (buildComponent badgedCard 1) r).1 = .ok b := by
  obtain ⟨hcard, hbadge, hlater, hkeys⟩ := builds_badgedCard
  obtain ⟨card, found, hname⟩ : ∃ node, badgedCard.forest.get? 0 = some node ∧
      badgedCard.nameOf node = "Card" := ⟨_, rfl, rfl⟩
  obtain ⟨badge, found', hname'⟩ : ∃ node, badgedCard.forest.get? 1 = some node ∧
      badgedCard.nameOf node = "Badge" := ⟨_, rfl, rfl⟩
  constructor
  · obtain ⟨a, ha⟩ := exists_ok_of_isOk hcard
    obtain ⟨b, hb⟩ := exists_ok_of_isOk hlater
    have hopen : (ofBuilds badgedCard [7, 1]).building = [] :=
      (extends_ofBuilds badgedCard [7, 1] (Sound.empty _)).2.1
    have hreachable : (ofBuilds badgedCard [7, 1]).Reachable badgedCard := .built (.built .empty 7) 1
    obtain rfl : a = b := component_independent .empty hreachable found
      (by simp [Table.keys]) (by simp) (by simp [hname, hkeys]) (by simp [hopen]) ha hb
    exact ⟨a, ha, by simp [hkeys], hb⟩
  · obtain ⟨r, hreach, hopen, hkeys, hok⟩ := exists_reaches_badge
    obtain ⟨a, ha⟩ := exists_ok_of_isOk hbadge
    obtain ⟨b, hb⟩ := exists_ok_of_isOk hok
    obtain rfl : a = b := component_independent .empty (.inside (.built .empty 7) hreach) found'
      (by simp [Table.keys]) (by simp) (by simp [Call.before, hkeys]) (by simp [Call.before, hname', hopen])
      ha hb
    exact ⟨a, r, ha, hopen, hb⟩

end DesignCompiler

import Mathlib.Data.List.Induction
import DesignCompiler.Proofs.Calls
import DesignCompiler.Proofs.Lockstep
import DesignCompiler.Tree.Normalize

namespace DesignCompiler

open Step Registry

variable {ctx : Context}

theorem isNamed_of_exec_buildBody {i : Nat} {node : Node} {r s : Registry} {c : Component}
    (h : exec (buildBody ctx i node) r = (.ok c, s)) :
    c.IsNamed ctx.options.instanceSuffix (ctx.nameOf node) := by
  rw [exec_buildBody] at h
  split at h
  · cases h
    exact ⟨rfl, rfl, rfl⟩
  · cases h

theorem keeps_buildBody {R : Registry → Registry → Prop} {i : Nat}
    (h : Keeps (OnRegistry R) (drawNode ctx i {})) (node : Node) : Keeps R (buildBody ctx i node) := by
  intro r
  have hr := h (.start ctx (ctx.nameOf node), r)
  rw [exec_buildBody]
  rcases hd : exec (drawNode ctx i {}) _ with ⟨_ | body, scope, s⟩ <;> rw [hd] at hr <;> exact hr

theorem extends_calls (ctx : Context) :
    (∀ i place, Keeps (OnRegistry (Extends ctx.options.instanceSuffix)) (drawNode ctx i place)) ∧
      ∀ i, Keeps (Extends ctx.options.instanceSuffix) (buildComponent ctx i) := by
  refine keeps_calls fun i node _ hdraw => ?_
  exact keeps_buildOnce (keeps_buildBody hdraw node) fun r c s => isNamed_of_exec_buildBody

theorem keeps_drawNode (i : Nat) (place : Place) :
    Keeps (OnRegistry (Extends ctx.options.instanceSuffix)) (drawNode ctx i place) :=
  (extends_calls ctx).1 i place

theorem keeps_buildComponent (i : Nat) :
    Keeps (Extends ctx.options.instanceSuffix) (buildComponent ctx i) :=
  (extends_calls ctx).2 i

theorem keepsExtends_enterNode (ctx : Context) (i : Nat) (node : Node) (place : Place) :
    Keeps (OnRegistry (Extends ctx.options.instanceSuffix)) (enterNode ctx i node place) :=
  keeps_enterNode (fun _ _ => keeps_buildComponent i) node

theorem keepsExtends_drawTurns (ctx : Context) (node : Node) (turns : List Turn) :
    Keeps (OnRegistry (Extends ctx.options.instanceSuffix)) (drawTurns ctx node turns) :=
  Keeps.mapM fun t _ => keeps_drawNode t.node (t.place ctx node)

theorem Call.extends (c : Call) : Extends ctx.options.instanceSuffix c.before (c.after ctx) := by
  cases c with
  | draw d => exact keeps_drawNode d.node d.place (d.scope, d.registry)
  | build i r => exact keeps_buildComponent i r

theorem after_enterNode_le {d : Draw} {node : Node} (h : ctx.forest.get? d.node = some node) :
    Extends ctx.options.instanceSuffix
      (exec (enterNode ctx d.node node d.place) (d.scope, d.registry)).2.2
      ((Call.draw d).after ctx) := by
  rw [Call.after, drawNode_of_some h]
  refine Keeps.rest_of_bind (R := OnRegistry (Extends ctx.options.instanceSuffix)) _ _ ?_
  rintro ⟨cleared, rendered⟩
  cases cleared with
  | true => exact Keeps.pure _
  | false =>
      exact Keeps.bind (Keeps.mapM fun t _ => keeps_drawNode t.node _) fun children => Keeps.pure _

theorem Draw.Draws.within {d e : Draw} (h : d.Draws ctx e) :
    Extends ctx.options.instanceSuffix d.registry e.registry ∧
      Extends ctx.options.instanceSuffix ((Call.draw e).after ctx) ((Call.draw d).after ctx) := by
  cases h with
  | @child node rendered s u before after t drawn found entered turns earlier =>
      have hs := keepsExtends_enterNode ctx d.node node d.place (d.scope, d.registry)
      rw [entered] at hs
      have hu := keepsExtends_drawTurns ctx node before s
      rw [earlier] at hu
      refine ⟨trans_of _ hs hu, ?_⟩
      have hrest : OnRegistry (Extends ctx.options.instanceSuffix)
          (exec (drawNode ctx t.node (t.place ctx node)) u).2
          (exec (drawTurns ctx node (before ++ t :: after)) s).2 :=
        Keeps.rest_of_mapM earlier fun t _ => keeps_drawNode t.node (t.place ctx node)
      have hafter : (Call.draw d).after ctx =
          (exec (drawTurns ctx node (before ++ t :: after)) s).2.2 := by
        rw [Call.after, exec_drawNode_of_some found, entered, turns]
        dsimp only
        rcases exec (drawTurns ctx node (before ++ t :: after)) s with ⟨_ | _, v⟩ <;> rfl
      rw [hafter]
      exact hrest

theorem nested_within {d : Draw} {node : Node} {before after : List ContentPlugin} {w : Work}
    {r : Registry} (found : ctx.forest.get? d.node = some node) (inside : d.place.parent.isSome)
    (plugins : ctx.plugins.content = before ++ .nestedComponent :: after)
    (earlier : exec (runPlugins ctx (some (buildComponent ctx d.node)) before)
      (Work.applyStyles ctx ⟨.start node d.place, d.scope⟩, d.registry) = (.ok (), (w, r)))
    (root : w.visit.node.attrs.isComponentRoot) :
    Extends ctx.options.instanceSuffix d.registry r ∧
      Extends ctx.options.instanceSuffix ((Call.build d.node r).after ctx)
        ((Call.draw d).after ctx) := by
  have hn : ∀ build ∈ some (buildComponent ctx d.node),
      Keeps (Extends ctx.options.instanceSuffix) build := by
    rintro build ⟨⟩
    exact keeps_buildComponent d.node
  have hr : Extends ctx.options.instanceSuffix d.registry
      (exec (runPlugins ctx (some (buildComponent ctx d.node)) before)
        (Work.applyStyles ctx ⟨.start node d.place, d.scope⟩, d.registry)).2.2 :=
    keeps_runPlugins hn before (_, d.registry)
  rw [earlier] at hr
  refine ⟨hr, ?_⟩
  have hrest : OnRegistry (Extends ctx.options.instanceSuffix)
      (exec (ContentPlugin.nestedComponent.apply ctx (some (buildComponent ctx d.node))) (w, r)).2
      (exec (runPlugins ctx (some (buildComponent ctx d.node)) (before ++ .nestedComponent :: after))
        (Work.applyStyles ctx ⟨.start node d.place, d.scope⟩, d.registry)).2 :=
    Keeps.rest_of_forM earlier fun p _ => p.keeps_apply hn
  have hnested : (exec (ContentPlugin.nestedComponent.apply ctx (some (buildComponent ctx d.node)))
      (w, r)).2.2 = (Call.build d.node r).after ctx := by
    change (exec (drawNested ctx (some (buildComponent ctx d.node))) (w, r)).2.2 = _
    rw [exec_drawNested_some, if_pos root, Call.after]
    rcases exec (buildComponent ctx d.node) r with ⟨_ | c, s⟩ <;> rfl
  have hplace : nestedBuild ctx d.node d.place = some (buildComponent ctx d.node) :=
    nestedBuild_of_isSome inside
  have hdraw := Keeps.rest_of_bind (R := OnRegistry (Extends ctx.options.instanceSuffix))
    ((Visit.start node d.place).draw ctx (nestedBuild ctx d.node d.place))
    (f := fun v => do
      let rendered ← Building.openWrappers v.finish
      return (v.finish.cleared, rendered))
    (d.scope, d.registry)
    fun v => Keeps.bind (keeps_openWrappers v.finish) fun rendered => Keeps.pure _
  rw [OnRegistry, after_draw, hplace, plugins] at hdraw
  rw [OnRegistry, hnested] at hrest
  exact trans_of _ hrest (trans_of _ (hplace ▸ hdraw) (after_enterNode_le found))

theorem Draw.makes_nested {d : Draw} (hp : ctx.plugins = {}) {node : Node}
    (found : ctx.forest.get? d.node = some node) (inside : d.place.parent.isSome)
    (root : node.attrs.isComponentRoot) :
    Call.Makes ctx (.draw d) (.build d.node d.registry) := by
  have plugins : ctx.plugins.content = [.nameStyles] ++ .nestedComponent :: [.renderMask, .renderVector,
      .contentSlot, .contentSlotFallback, .ifTrue, .ifFalse, .onClick, .elementId, .extraClass, .text] := by
    rw [hp]
    rfl
  refine .nested (w := Work.beforeNested ctx ⟨.start node d.place, d.scope⟩) found inside plugins rfl ?_
  change (Work.applyStyles ctx ⟨.start node d.place, d.scope⟩).visit.node.attrs.isComponentRoot
  rw [node_applyStyles, node_start]
  exact root

theorem body_within {i : Nat} {node : Node} {r : Registry}
    (found : ctx.forest.get? i = some node)
    (unfinished : r.components.lookup (ctx.nameOf node) = none)
    (unopened : ctx.nameOf node ∉ r.building) (hr : r.Sound ctx.options.instanceSuffix) :
    (exec (drawNode ctx i {})
      (.start ctx (ctx.nameOf node), r.opened (ctx.nameOf node))).2.2.components <+:
        ((Call.build i r).after ctx).components := by
  have hopen := hr.opened (Table.lookup_eq_none.1 unfinished) unopened
  obtain ⟨hs, hb, -⟩ := keeps_drawNode i {}
    (.start ctx (ctx.nameOf node), r.opened (ctx.nameOf node)) hopen
  rw [Call.after, buildComponent_of_some found, exec_buildOnce, unfinished]
  simp only [unopened, if_false, exec_buildBody]
  rcases hd : exec (drawNode ctx i {}) _ with ⟨_ | body, scope, s⟩ <;> rw [hd] at hs hb
  · exact List.prefix_rfl
  · have hn : ctx.nameOf node ∉ s.components.keys :=
      hs.disjoint _ (by rw [hb]; simp [Registry.opened])
    simp [stored, closed, Table.put_of_notMem hn]

theorem Call.Makes.within {c e : Call} (h : Call.Makes ctx c e)
    (hc : c.before.Sound ctx.options.instanceSuffix) :
    e.before.Sound ctx.options.instanceSuffix ∧ c.before.components <+: e.before.components ∧
      (e.after ctx).components <+: (c.after ctx).components := by
  cases h with
  | child h =>
      obtain ⟨hs, -, hp⟩ := h.within.1 hc
      exact ⟨hs, hp, (h.within.2 (Call.extends _ hs).1).2.2⟩
  | nested found inside plugins earlier root =>
      have h := nested_within found inside plugins earlier root
      obtain ⟨hs, -, hp⟩ := h.1 hc
      exact ⟨hs, hp, (h.2 (Call.extends _ hs).1).2.2⟩
  | body found unfinished unopened =>
      exact ⟨hc.opened (Table.lookup_eq_none.1 unfinished) unopened, List.prefix_rfl,
        body_within found unfinished unopened hc⟩

theorem Call.Reaches.within {c e : Call} (h : Call.Reaches ctx c e)
    (hc : c.before.Sound ctx.options.instanceSuffix) :
    e.before.Sound ctx.options.instanceSuffix ∧ c.before.components <+: e.before.components ∧
      (e.after ctx).components <+: (c.after ctx).components := by
  induction h with
  | refl => exact ⟨hc, List.prefix_rfl, List.prefix_rfl⟩
  | tail _ hmakes ih =>
      obtain ⟨hs, hb, ha⟩ := ih
      obtain ⟨hs', hb', ha'⟩ := hmakes.within hs
      exact ⟨hs', hb.trans hb', ha'.trans ha⟩

/-- The registry that the builds of some nodes leave, one after another, whether they fail or not. -/
def Registry.ofBuilds (ctx : Context) (roots : List Nat) : Registry :=
  roots.foldl (fun r i => (exec (buildComponent ctx i) r).2) {}

theorem ofBuilds_append (roots : List Nat) (i : Nat) :
    ofBuilds ctx (roots ++ [i]) = (Call.build i (ofBuilds ctx roots)).after ctx :=
  List.foldl_append

theorem extends_ofBuilds (ctx : Context) (roots : List Nat) :
    Extends ctx.options.instanceSuffix {} (ofBuilds ctx roots) := by
  induction roots using List.reverseRecOn with
  | nil => exact refl_of _ _
  | append_singleton roots i ih =>
      rw [ofBuilds_append]
      exact trans_of _ ih (Call.extends (.build i _))

/-- A finished component is answered for every node of its name, and nothing is drawn for that. -/
theorem build_of_lookup {i : Nat} {node : Node} {r : Registry} {a : Component}
    (found : ctx.forest.get? i = some node) (h : r.components.lookup (ctx.nameOf node) = some a) :
    exec (buildComponent ctx i) r = (.ok a, r) ∧ ∀ e, ¬ Call.Makes ctx (.build i r) e := by
  constructor
  · rw [buildComponent_of_some found]
    exact exec_buildOnce_of_lookup h
  · rintro _ (_ | _ | ⟨found', unfinished, -⟩)
    obtain rfl := Option.some.inj (found.symm.trans found')
    rw [h] at unfinished
    cases unfinished

theorem lookup_of_build {i : Nat} {r : Registry} {a : Component}
    (h : (exec (buildComponent ctx i) r).1 = .ok a) :
    ∃ node, ctx.forest.get? i = some node ∧
      (exec (buildComponent ctx i) r).2.components.lookup (ctx.nameOf node) = some a := by
  cases found : ctx.forest.get? i with
  | none =>
      rw [buildComponent_of_none found] at h
      cases h
  | some node =>
      rw [buildComponent_of_some found] at h ⊢
      exact ⟨node, rfl, lookup_of_exec_buildOnce (Prod.ext h rfl)⟩

theorem isNamed_of_build {i : Nat} {r s : Registry} {c : Component}
    (hr : r.Sound ctx.options.instanceSuffix) (h : exec (buildComponent ctx i) r = (.ok c, s)) :
    ∃ node, ctx.forest.get? i = some node ∧
      c.IsNamed ctx.options.instanceSuffix (ctx.nameOf node) := by
  obtain ⟨node, found, hl⟩ := lookup_of_build (congrArg Prod.fst h)
  have hs := (keeps_buildComponent i r hr).1
  exact ⟨node, found, hs.named _ (Table.mem_of_lookup hl)⟩

/-- Before and after every call of a run, also of one that fails, the registry is sound. A call leaves
no name open and only adds components at the end, in the order of time; a component that a build
answers is answered for its name ever after, without another call. -/
theorem builds_only_grow (ctx : Context) (roots : List Nat) :
    (ofBuilds ctx roots).building = [] ∧ ∀ i c, Call.Reaches ctx (.build i (ofBuilds ctx roots)) c →
      c.before.Sound ctx.options.instanceSuffix ∧
      (c.after ctx).Sound ctx.options.instanceSuffix ∧
      (c.after ctx).building = c.before.building ∧
      (ofBuilds ctx roots).components <+: c.before.components ∧
      c.before.components <+: (c.after ctx).components ∧
      (c.after ctx).components <+: (ofBuilds ctx (roots ++ [i])).components ∧
      ∀ j r a, c = .build j r → (exec (buildComponent ctx j) r).1 = .ok a →
        ∃ node, ctx.forest.get? j = some node ∧
          (c.after ctx).components.lookup (ctx.nameOf node) = some a ∧
          ∀ k other s, ctx.forest.get? k = some other → ctx.nameOf other = ctx.nameOf node →
            (c.after ctx).components <+: s.components →
              exec (buildComponent ctx k) s = (.ok a, s) ∧ ∀ e, ¬ Call.Makes ctx (.build k s) e := by
  obtain ⟨hr, hb, -⟩ := extends_ofBuilds ctx roots (Sound.empty _)
  refine ⟨hb, fun i c h => ?_⟩
  obtain ⟨hs, hbefore, hafter⟩ := h.within hr
  obtain ⟨hs', hb', hc⟩ := c.extends hs
  refine ⟨hs, hs', hb', hbefore, hc, ?_, ?_⟩
  · rw [ofBuilds_append]
    exact hafter
  · rintro j r a rfl ha
    obtain ⟨node, found, hl⟩ := lookup_of_build ha
    refine ⟨node, found, hl, fun k other s found' hname hp => ?_⟩
    exact build_of_lookup found' (hname ▸ Table.lookup_of_isPrefix hp hl)

def cardOverBadge : SceneNode where
  attrs := { id := "0:0", name := "Page", kind := .canvas }
  children :=
    [{ attrs := { id := "1", name := "#Card" }
       children := [{ attrs := { id := "2", name := "#Badge" } }] }]

def badgedCard : Context where
  forest := (NormalizedScene.ofCanvas {} cardOverBadge).forest
  options := {}
  resources := {}
  descriptions := []

theorem exists_reaches_badge :
    ∃ r, Call.Reaches badgedCard (.build 0 (ofBuilds badgedCard [7])) (.build 1 r) ∧
      r.building = ["Card"] ∧ r.components.keys = [] ∧
      (exec (buildComponent badgedCard 1) r).1.isOk := by
  have henter : (badgedCard.forest.get? 0).map (fun node =>
      let s := exec (enterNode badgedCard 0 node {})
        (.start badgedCard (badgedCard.nameOf node),
          (ofBuilds badgedCard [7]).opened (badgedCard.nameOf node))
      (s.1.toOption.map Prod.fst, s.2.2.building, s.2.2.components.keys,
        (exec (buildComponent badgedCard 1) s.2.2).1.isOk)) = some (some false, ["Card"], [], true) := by
    decide +kernel
  obtain ⟨card, found, hcard⟩ := Option.map_eq_some_iff.1 henter
  rcases hs : exec (enterNode badgedCard 0 card {}) (.start badgedCard (badgedCard.nameOf card),
    (ofBuilds badgedCard [7]).opened (badgedCard.nameOf card)) with ⟨_ | ⟨cleared, rendered⟩, s⟩
  all_goals rw [hs] at hcard; obtain ⟨hentered, hcard⟩ := Prod.mk.inj hcard; cases hentered
  simp only [Prod.mk.injEq] at hcard
  refine ⟨s.2, ?_, hcard⟩
  have hempty : ofBuilds badgedCard [7] = {} := by
    change (exec (buildComponent badgedCard 7) {}).2 = {}
    rw [buildComponent_of_none rfl]
    rfl
  have hbody : Call.Makes badgedCard (.build 0 (ofBuilds badgedCard [7])) (.draw _) :=
    .body found (by rw [hempty]; rfl) (by rw [hempty]; exact List.not_mem_nil)
  have hturns : (badgedCard.forest.buckets 0).turns = [] ++ [⟨1, none, 0⟩] := by decide +kernel
  have hchild : Draw.Draws badgedCard ⟨0, {}, _, _⟩ _ := .child found hs hturns rfl
  obtain ⟨badge, found', root⟩ :
      ∃ node, badgedCard.forest.get? 1 = some node ∧ node.attrs.isComponentRoot := ⟨_, rfl, rfl⟩
  exact .head hbody (.head (.child hchild) (.single (Draw.makes_nested rfl found' rfl root)))

/-- After a build that failed, the build of a card builds the badge in it, while the card is open. That
badge is answered to the next build, from the same registry. -/
theorem builds_only_grow_badgedCard :
    ∃ r b, Call.Reaches badgedCard (.build 0 (ofBuilds badgedCard [7])) (.build 1 r) ∧
      r.building = ["Card"] ∧ ((Call.build 1 r).after badgedCard).building = ["Card"] ∧
      (exec (buildComponent badgedCard 1) r).1 = .ok b ∧
      exec (buildComponent badgedCard 1) (ofBuilds badgedCard [7, 0]) =
        (.ok b, ofBuilds badgedCard [7, 0]) := by
  obtain ⟨r, hreach, hopen, -, hok⟩ := exists_reaches_badge
  obtain ⟨b, hb⟩ := exists_ok_of_isOk hok
  obtain ⟨-, -, hbuilding, -, -, hgrow, hstored⟩ := (builds_only_grow badgedCard [7]).2 0 _ hreach
  obtain ⟨badge, found, -, hagain⟩ := hstored 1 r b rfl hb
  exact ⟨r, b, hreach, hopen, hbuilding.trans hopen, hb, (hagain 1 badge _ found rfl hgrow).1⟩

end DesignCompiler

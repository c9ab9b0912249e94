import Mathlib.Logic.Relation
import DesignCompiler.Proofs.Drawing

namespace DesignCompiler

open Step Registry

variable {ctx : Context}

structure Draw where
  node : Nat
  place : Place
  scope : Scope
  registry : Registry

/-- A drawing draws a child when it is the turn of the child: after the wrappers of its own node and
after the children before it. -/
inductive Draw.Draws (ctx : Context) : Draw → Draw → Prop
  | child {d : Draw} {node : Node} {rendered : Rendered} {s u : Scope × Registry}
      {before after : List Turn} {t : Turn} {drawn : List Rendered}
      (found : ctx.forest.get? d.node = some node)
      (entered : exec (enterNode ctx d.node node d.place) (d.scope, d.registry) =
        (.ok (false, rendered), s))
      (turns : (ctx.forest.buckets d.node).turns = before ++ t :: after)
      (earlier : exec (drawTurns ctx node before) s = (.ok drawn, u)) :
      Draws ctx d ⟨t.node, t.place ctx node, u.1, u.2⟩

inductive Call
  | draw (d : Draw)
  | build (i : Nat) (registry : Registry)

namespace Call

inductive Makes (ctx : Context) : Call → Call → Prop
  | child {d e : Draw} (h : d.Draws ctx e) : Makes ctx (.draw d) (.draw e)
  | nested {d : Draw} {node : Node} {before after : List ContentPlugin} {w : Work} {r : Registry}
      (found : ctx.forest.get? d.node = some node)
      (inside : d.place.parent.isSome)
      (plugins : ctx.plugins.content = before ++ .nestedComponent :: after)
      (earlier : exec (runPlugins ctx (some (buildComponent ctx d.node)) before)
        (Work.applyStyles ctx ⟨.start node d.place, d.scope⟩, d.registry) = (.ok (), (w, r)))
      (root : w.visit.node.attrs.isComponentRoot) :
      Makes ctx (.draw d) (.build d.node r)
  | body {i : Nat} {node : Node} {r : Registry}
      (found : ctx.forest.get? i = some node)
      (unfinished : r.components.lookup (ctx.nameOf node) = none)
      (unopened : ctx.nameOf node ∉ r.building) :
      Makes ctx (.build i r)
        (.draw ⟨i, {}, .start ctx (ctx.nameOf node), r.opened (ctx.nameOf node)⟩)

def Reaches (ctx : Context) : Call → Call → Prop := Relation.ReflTransGen (Makes ctx)

def before : Call → Registry
  | .draw d => d.registry
  | .build _ r => r

def after (ctx : Context) : Call → Registry
  | .draw d => (exec (drawNode ctx d.node d.place) (d.scope, d.registry)).2.2
  | .build i r => (exec (buildComponent ctx i) r).2

end Call

def OnRegistry {α : Type} (R : Registry → Registry → Prop) (s t : α × Registry) : Prop := R s.2 t.2

section OnRegistry

variable {α : Type} {R : Registry → Registry → Prop} [IsPreorder Registry R]

instance : IsPreorder (α × Registry) (OnRegistry R) where
  refl s := refl_of R s.2
  trans _ _ _ h h' := trans_of R h h'

variable {nested : Option (Registering Component)}

theorem keeps_drawNested (hn : ∀ build ∈ nested, Keeps R build) :
    Keeps (OnRegistry R) (drawNested ctx nested) := by
  intro (w, r)
  cases nested with
  | none => exact refl_of R r
  | some build =>
      have h := hn build rfl r
      rw [exec_drawNested_some]
      split
      · rcases hb : exec build r with ⟨_ | c, s⟩ <;> rw [hb] at h <;> exact h
      · exact refl_of R r

/-- Of all plugins only that for nested components uses the registry. -/
theorem ContentPlugin.keeps_apply (hn : ∀ build ∈ nested, Keeps R build) (p : ContentPlugin) :
    Keeps (OnRegistry R) (p.apply ctx nested) := by
  cases p with
  | nestedComponent => exact keeps_drawNested hn
  | _ => exact fun s => refl_of R s.2

theorem keeps_runPlugins (hn : ∀ build ∈ nested, Keeps R build) (plugins : List ContentPlugin) :
    Keeps (OnRegistry R) (runPlugins ctx nested plugins) :=
  Keeps.forM fun p _ => p.keeps_apply hn

theorem after_draw (v : Visit) (scope : Scope) (r : Registry) :
    (exec (v.draw ctx nested) (scope, r)).2.2 =
      (exec (runPlugins ctx nested ctx.plugins.content) (Work.applyStyles ctx ⟨v, scope⟩, r)).2.2 := by
  rw [exec_draw]
  rcases exec (runPlugins ctx nested ctx.plugins.content) _ with ⟨_ | _, w, s⟩ <;> rfl

theorem keeps_draw (hn : ∀ build ∈ nested, Keeps R build) (v : Visit) :
    Keeps (OnRegistry R) (v.draw ctx nested) := by
  intro (scope, r)
  rw [OnRegistry, after_draw]
  exact keeps_runPlugins hn _ (_, r)

theorem keeps_openWrappers (v : Visit) : Keeps (OnRegistry R) (Building.openWrappers v) :=
  fun s => refl_of R s.2

omit [IsPreorder Registry R] in
theorem keeps_nestedBuild {i : Nat} {place : Place}
    (hn : ∀ p, place.parent = some p → Keeps R (buildComponent ctx i)) :
    ∀ build ∈ nestedBuild ctx i place, Keeps R build := by
  intro build hb
  obtain ⟨p, hp, rfl⟩ := Option.map_eq_some_iff.1 hb
  exact hn p hp

theorem keeps_enterNode {i : Nat} {place : Place}
    (hn : ∀ p, place.parent = some p → Keeps R (buildComponent ctx i)) (node : Node) :
    Keeps (OnRegistry R) (enterNode ctx i node place) :=
  Keeps.bind (keeps_draw (keeps_nestedBuild hn) _) fun v =>
    Keeps.bind (keeps_openWrappers v.finish) fun _ => Keeps.pure _

/-- What a build keeps whose drawing keeps it, all drawings and builds keep. -/
theorem keeps_calls (hbuild : ∀ i node, ctx.forest.get? i = some node →
      Keeps (OnRegistry R) (drawNode ctx i {}) → Keeps R (buildOnce (ctx.nameOf node) (buildBody ctx i node))) :
    (∀ i place, Keeps (OnRegistry R) (drawNode ctx i place)) ∧ ∀ i, Keeps R (buildComponent ctx i) := by
  refine drawNode.mutual_induct ctx (fun i place => Keeps (OnRegistry R) (drawNode ctx i place))
    (fun i => Keeps R (buildComponent ctx i)) ?_ ?_ ?_ ?_
  · intro i place h
    rw [drawNode_of_none h]
    exact Keeps.throw _
  · intro i place node h hnested hchildren
    rw [drawNode_of_some h]
    refine Keeps.bind (keeps_enterNode hnested node) ?_
    rintro ⟨cleared, rendered⟩
    cases cleared with
    | true => exact Keeps.pure _
    | false => exact Keeps.bind (Keeps.mapM hchildren) fun children => Keeps.pure _
  · intro i h
    rw [buildComponent_of_none h]
    exact Keeps.throw _
  · intro i node h hdraw
    rw [buildComponent_of_some h]
    exact hbuild i node h hdraw

end OnRegistry

end DesignCompiler

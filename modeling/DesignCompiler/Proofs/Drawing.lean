import DesignCompiler.Component.Build
import DesignCompiler.Proofs.Registry

namespace DesignCompiler

open Step

variable {ctx : Context} {nested : Option (Registering Component)}

def Context.nameOf (ctx : Context) (node : Node) : String :=
  componentName ctx.options.delimiters node.attrs.name

def runPlugins (ctx : Context) (nested : Option (Registering Component))
    (plugins : List ContentPlugin) : Drawing Unit :=
  plugins.forM fun plugin => plugin.apply ctx nested

theorem exec_edit (f : Work → Work) (w : Work) (r : Registry) :
    exec (Drawing.edit f) (w, r) = (.ok (), (f w, r)) := rfl

theorem exec_register {α : Type} (step : Registering α) (w : Work) (r : Registry) :
    exec (Drawing.register step) (w, r) = ((exec step r).1, (w, (exec step r).2)) := rfl

theorem exec_drawNested_none (s : Work × Registry) :
    exec (drawNested ctx none) s = (.ok (), s) := rfl

theorem exec_drawNested_some (build : Registering Component) (w : Work) (r : Registry) :
    exec (drawNested ctx (some build)) (w, r) =
      if w.visit.node.attrs.isComponentRoot then
        match exec build r with
        | (.ok c, s) =>
          (.ok (), ((w.editVisit (Visit.showComponent (ctx.nameOf w.visit.node))).useComponent c, s))
        | (.error e, s) => (.error e, (w.editVisit (Visit.showComponent (ctx.nameOf w.visit.node)), s))
      else (.ok (), (w.addDescription ctx, r)) := by
  rw [drawNested, exec_bind]
  change exec (if w.visit.node.attrs.isComponentRoot then _ else _) (w, r) = _
  split
  · rw [exec_bind, exec_edit]
    dsimp only
    rw [exec_bind, exec_register]
    rcases exec build r with ⟨_ | c, s⟩ <;> rfl
  · rfl

theorem exec_drawVector (w : Work) (r : Registry) :
    exec (drawVector ctx) (w, r) =
      (((w.drawVector ctx).1.mapError .markup), ((w.drawVector ctx).2, r)) := rfl

theorem exec_draw (v : Visit) (scope : Scope) (r : Registry) :
    exec (v.draw ctx nested) (scope, r) =
      match exec (runPlugins ctx nested ctx.plugins.content) (Work.applyStyles ctx ⟨v, scope⟩, r) with
      | (.ok _, (w, s)) => (.ok w.visit, (w.scope, s))
      | (.error e, (w, s)) => (.error e, (w.scope, s)) := by
  change (match exec (runPlugins ctx nested ctx.plugins.content) _ with
    | (result, (w, s)) => (result.map fun _ => w.visit, (w.scope, s))) = _
  rcases exec (runPlugins ctx nested ctx.plugins.content) _ with ⟨_ | _, w, s⟩ <;> rfl

/-- The build of the component of a node, which the root of a component does not begin again. -/
def nestedBuild (ctx : Context) (i : Nat) (place : Place) : Option (Registering Component) :=
  place.parent.map fun _ => buildComponent ctx i

theorem nestedBuild_of_isSome {i : Nat} {place : Place} (inside : place.parent.isSome) :
    nestedBuild ctx i place = some (buildComponent ctx i) := by
  obtain ⟨p, hp⟩ := Option.isSome_iff_exists.1 inside
  rw [nestedBuild, hp]
  rfl

/-- All of the drawing of a node but its children, and whether these are left out. -/
def enterNode (ctx : Context) (i : Nat) (node : Node) (place : Place) : Building (Bool × Rendered) := do
  let v ← (Visit.start node place).draw ctx (nestedBuild ctx i place)
  let rendered ← Building.openWrappers v.finish
  return (v.finish.cleared, rendered)

def drawTurns (ctx : Context) (node : Node) (turns : List Turn) : Building (List Rendered) :=
  turns.mapM fun t => drawNode ctx t.node (t.place ctx node)

theorem drawNode_of_none {i : Nat} (h : ctx.forest.get? i = none) (place : Place) :
    drawNode ctx i place = throw (.compile (.nodeNotFound i)) := by
  rw [drawNode]
  split
  · rfl
  · next h' => rw [h] at h'; cases h'

theorem drawNode_of_some {i : Nat} {node : Node} (h : ctx.forest.get? i = some node) (place : Place) :
    drawNode ctx i place = do
      let (cleared, rendered) ← enterNode ctx i node place
      if cleared then return rendered
      let children ← drawTurns ctx node (ctx.forest.buckets i).turns
      return { rendered with children } := by
  rw [drawNode]
  split
  · next h' => rw [h] at h'; cases h'
  · next node' h' =>
    obtain rfl : node = node' := Option.some.inj (h.symm.trans h')
    simp only [enterNode, bind_assoc, pure_bind, drawTurns]
    congr 1
    · rw [nestedBuild]
      cases place.parent <;> rfl
    · funext v
      congr 1
      funext rendered
      congr 1
      rw [List.mapM_subtype (g := fun t => drawNode ctx t.node (t.place ctx node)) (fun _ _ => rfl),
        List.unattach_attach]

theorem exec_drawNode_of_some {i : Nat} {node : Node} (h : ctx.forest.get? i = some node)
    (place : Place) (s : Scope × Registry) :
    exec (drawNode ctx i place) s =
      match exec (enterNode ctx i node place) s with
      | (.error e, t) => (.error e, t)
      | (.ok (true, rendered), t) => (.ok rendered, t)
      | (.ok (false, rendered), t) =>
        match exec (drawTurns ctx node (ctx.forest.buckets i).turns) t with
        | (.ok children, u) => (.ok { rendered with children }, u)
        | (.error e, u) => (.error e, u) := by
  rw [drawNode_of_some h, exec_bind]
  rcases exec (enterNode ctx i node place) s with ⟨_ | ⟨_ | _, rendered⟩, t⟩
  · rfl
  · simp only [Bool.false_eq_true, if_false, exec_bind]
    rcases exec (drawTurns ctx node (ctx.forest.buckets i).turns) t with ⟨_ | _, u⟩ <;> rfl
  · rfl

theorem children_of_enterNode {i : Nat} {node : Node} {place : Place} {cleared : Bool} {r : Rendered}
    {s t : Scope × Registry} (h : exec (enterNode ctx i node place) s = (.ok (cleared, r), t)) :
    r.children = [] := by
  obtain ⟨v, u, -, h⟩ := exec_bind_eq_ok.1 h
  obtain ⟨r', u', hr, h⟩ := exec_bind_eq_ok.1 h
  rw [exec_pure] at h
  cases h
  cases hr
  rfl

/-- A drawing that succeeds draws all turns of its node, or none where the children are left out. -/
theorem exec_drawNode_eq_ok {i : Nat} {place : Place} {r : Rendered} {s u : Scope × Registry}
    (h : exec (drawNode ctx i place) s = (.ok r, u)) :
    ∃ node rendered t, ctx.forest.get? i = some node ∧
      ((exec (enterNode ctx i node place) s = (.ok (true, rendered), t) ∧ r = rendered ∧ u = t) ∨
        exec (enterNode ctx i node place) s = (.ok (false, rendered), t) ∧
          ∃ children, exec (drawTurns ctx node (ctx.forest.buckets i).turns) t = (.ok children, u) ∧
            r = { rendered with children }) := by
  rcases found : ctx.forest.get? i with _ | node
  · rw [drawNode_of_none found, exec_throw] at h
    cases h
  · rw [exec_drawNode_of_some found] at h
    rcases he : exec (enterNode ctx i node place) s with ⟨e | ⟨cleared, rendered⟩, t⟩ <;> rw [he] at h
    · cases h
    · refine ⟨node, rendered, t, rfl, ?_⟩
      cases cleared with
      | true =>
          cases h
          exact .inl ⟨he, rfl, rfl⟩
      | false =>
          dsimp only at h
          rcases ht : exec (drawTurns ctx node (ctx.forest.buckets i).turns) t
            with ⟨e | children, u'⟩ <;> rw [ht] at h <;> cases h
          exact .inr ⟨he, children, rfl, rfl⟩

def Scope.start (ctx : Context) (name : String) : Scope :=
  { name, classPrefix := ctx.options.classPrefix }

theorem exec_inScope {α : Type} (scope : Scope) (x : Building α) (r : Registry) :
    exec (Building.inScope scope x) r =
      match exec x (scope, r) with
      | (.ok a, (scope, s)) => (.ok (a, scope), s)
      | (.error e, (_, s)) => (.error e, s) := by
  change (match exec x (scope, r) with
    | (result, (scope, s)) => (result.map fun a => (a, scope), s)) = _
  rcases exec x (scope, r) with ⟨_ | a, scope, s⟩ <;> rfl

def Component.ofBody (ctx : Context) (i : Nat) (node : Node) (body : Rendered) (scope : Scope) :
    Component where
  name := ctx.nameOf node
  instanceName := componentInstance (ctx.nameOf node) ctx.options.instanceSuffix
  fileName := fileStem (ctx.nameOf node)
  root := i
  body
  scope
  description := ctx.descriptionStyles? node

def buildBody (ctx : Context) (i : Nat) (node : Node) : Registering Component := do
  let (body, scope) ← Building.inScope (.start ctx (ctx.nameOf node)) (drawNode ctx i {})
  return .ofBody ctx i node body scope

theorem exec_buildBody (i : Nat) (node : Node) (r : Registry) :
    exec (buildBody ctx i node) r =
      match exec (drawNode ctx i {}) (.start ctx (ctx.nameOf node), r) with
      | (.ok body, (scope, s)) => (.ok (.ofBody ctx i node body scope), s)
      | (.error e, (_, s)) => (.error e, s) := by
  rw [buildBody, exec_bind, exec_inScope]
  rcases exec (drawNode ctx i {}) _ with ⟨_ | body, scope, s⟩ <;> rfl

theorem buildComponent_of_none {i : Nat} (h : ctx.forest.get? i = none) :
    buildComponent ctx i = throw (.compile (.nodeNotFound i)) := by
  rw [buildComponent, h]

theorem buildComponent_of_some {i : Nat} {node : Node} (h : ctx.forest.get? i = some node) :
    buildComponent ctx i = Registry.buildOnce (ctx.nameOf node) (buildBody ctx i node) := by
  rw [buildComponent, h]
  rfl

/-- A build that succeeds and does not find its component draws the root of it. -/
theorem exists_body_of_build {i : Nat} {node : Node} {c : Component} {r s : Registry}
    (found : ctx.forest.get? i = some node)
    (unfinished : r.components.lookup (ctx.nameOf node) = none)
    (h : exec (buildComponent ctx i) r = (.ok c, s)) :
    ctx.nameOf node ∉ r.building ∧
      ∃ body scope t, exec (drawNode ctx i {})
          (.start ctx (ctx.nameOf node), r.opened (ctx.nameOf node)) = (.ok body, (scope, t)) ∧
        c = .ofBody ctx i node body scope ∧
        s = (t.closed (ctx.nameOf node)).stored (ctx.nameOf node) c := by
  rw [buildComponent_of_some found, Registry.exec_buildOnce, unfinished] at h
  dsimp only at h
  split at h
  · cases h
  · next unopened =>
    rw [exec_buildBody] at h
    rcases hd : exec (drawNode ctx i {}) (.start ctx (ctx.nameOf node), r.opened (ctx.nameOf node))
      with ⟨_ | body, scope, t⟩ <;> rw [hd] at h <;> cases h
    exact ⟨unopened, body, scope, t, rfl, rfl, rfl⟩

end DesignCompiler

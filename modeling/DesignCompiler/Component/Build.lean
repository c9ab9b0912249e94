import DesignCompiler.Plugin.Content
import DesignCompiler.Plugin.Style
import DesignCompiler.Tree.Buckets

namespace DesignCompiler

abbrev Building := ExceptT DesignError (StateM (Scope × Registry))

def Building.inScope {α : Type} (scope : Scope) (step : Building α) : Registering (α × Scope) :=
  ExceptT.mk fun registry =>
    let (result, scope, registry) := step.run (scope, registry)
    (result.map fun a => (a, scope), registry)

def Work.applyStyles (ctx : Context) (w : Work) : Work :=
  ctx.plugins.style.foldl (fun w plugin => plugin.apply ctx w) w

def drawContent (ctx : Context) (nested : Option (Registering Component)) : Drawing Unit :=
  ctx.plugins.content.forM fun plugin => plugin.apply ctx nested

def Visit.draw (ctx : Context) (nested : Option (Registering Component)) (v : Visit) :
    Building Visit :=
  ExceptT.mk fun (scope, registry) =>
    let (result, w, registry) :=
      (drawContent ctx nested).run (Work.applyStyles ctx ⟨v, scope⟩, registry)
    (result.map fun _ => w.visit, w.scope, registry)

/-- A visit before the first plugin. The root of a component fills what holds the component. -/
def Visit.start (node : Node) (place : Place) : Visit :=
  let v : Visit := { node, place }
  if v.isRoot then (v.setMiddle "width" "100%").setMiddle "height" "100%" else v

def rootOuter : StyleMap := [("position", "relative"), ("width", "100%"), ("height", "100%")]

def setIfDrawn (property : String) (value : StyleValue) (style : StyleMap) : StyleMap :=
  if style.isEmpty then style else style.set property value

/-- A visit after the last plugin. All wrappers of a node lie at the same height. -/
def Visit.finish (v : Visit) : Visit :=
  let v := if v.isRoot then { v with outer := v.outer.merge rootOuter } else v
  match v.middle.get? "zIndex" with
  | some z =>
    { v with outer := setIfDrawn "zIndex" z v.outer, inner := setIfDrawn "zIndex" z v.inner }
  | none => v

/-- Allots the classes of the wrappers; the children are still missing. -/
def Visit.openWrappers (v : Visit) (scope : Scope) : Rendered × Scope :=
  let (middle, scope) := scope.addStyle v.middle
  let (outer, scope) := scope.addStyle v.outer
  let (inner, scope) := scope.addStyle v.inner
  ({ node := v.node.index, outer, inner
     middle := { id := v.sceneId, properties := v.properties, rule := middle, classes := v.classes }
     prelude := v.prelude, children := [], content := v.content }, scope)

def Building.openWrappers (v : Visit) : Building Rendered :=
  modifyGet fun (scope, registry) =>
    let (rendered, scope) := v.openWrappers scope
    (rendered, scope, registry)

def Turn.place (ctx : Context) (parent : Node) (t : Turn) : Place :=
  { parent := some parent, previous := t.previous.bind ctx.forest.get?, order := t.order }

mutual

/-- Draws a node by all plugins, opens its wrappers and then draws its children. A component that is met on the way is
built before the walk goes on. Children come after their parents in the forest, so that the walk ends. -/
def drawNode (ctx : Context) (i : Nat) (place : Place) : Building Rendered :=
  match _h : ctx.forest.get? i with
  | none => throw (.compile (.nodeNotFound i))
  | some node => do
    let nested : Option (Registering Component) :=
      match _hp : place.parent with
      | none => none
      | some _ => some (buildComponent ctx i)
    let v ← (Visit.start node place).draw ctx nested
    let v := v.finish
    let rendered ← Building.openWrappers v
    if v.cleared then return rendered
    let children ← (ctx.forest.buckets i).turns.attach.mapM fun ⟨t, _ht⟩ =>
      drawNode ctx t.node (t.place ctx node)
    return { rendered with children }
termination_by 4 * (ctx.forest.size - i) + if place.parent.isSome then 2 else 0
decreasing_by
  · simp [_hp]
  · have := ctx.forest.lt_of_mem_turns _ht
    have : i < ctx.forest.size := (Array.getElem?_eq_some_iff.1 _h).1
    simp only [Turn.place, Option.isSome_some, if_true]
    omega

/-- The component whose root is a node: the one of its name, or else a new one. -/
def buildComponent (ctx : Context) (i : Nat) : Registering Component :=
  match ctx.forest.get? i with
  | none => throw (.compile (.nodeNotFound i))
  | some node =>
    let name := componentName ctx.options.delimiters node.attrs.name
    Registry.buildOnce name do
      let (body, scope) ← Building.inScope { name, classPrefix := ctx.options.classPrefix }
        (drawNode ctx i {})
      return { name, instanceName := componentInstance name ctx.options.instanceSuffix
               fileName := fileStem name, root := i, body, scope
               description := ctx.descriptionStyles? node }
termination_by 4 * (ctx.forest.size - i) + 1

end

end DesignCompiler

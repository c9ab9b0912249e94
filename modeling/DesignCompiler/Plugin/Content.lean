import DesignCompiler.Component.Context
import DesignCompiler.Component.Registry
import DesignCompiler.Markup.Transcode
import DesignCompiler.Plugin.Text

namespace DesignCompiler

/-- A value of a style parameter: a number if it reads as one. -/
def styleOfText (s : String) : StyleValue :=
  match Decimal.readFloat? s with
  | some x => .number x
  | none => .text s

def ParamValue.style? : ParamValue → Option StyleValue
  | .text s => some (styleOfText s)
  | _ => none

def nameStyles (key : String) (params : Params) : StyleMap :=
  ((Params.table? key params).getD []).filterMap fun (property, value) =>
    value.style?.map fun v => (property, v)

def Visit.applyNameStyles (v : Visit) : Visit :=
  { v with
    middle := v.middle.merge (nameStyles "style" v.params)
    inner := v.inner.merge (nameStyles "innerStyle" v.params)
    outer := v.outer.merge (nameStyles "outerStyle" v.params) }

def anyType : String := "any"

def mouseHandlerType : String := "React.MouseEventHandler<HTMLElement>"

def Work.declare (prop type : String) (w : Work) : Work := w.editScope fun s => s.declare prop type

def Work.drawSlot (w : Work) : Work :=
  match Params.value? "content" w.visit.params with
  | some prop =>
    if w.visit.params.contains "contentIfEmpty" then w
    else (w.editVisit fun v => v.clear.addContent (.slot prop)).declare prop anyType
  | none => w

def Work.drawSlotFallback (w : Work) : Work :=
  match Params.value? "content" w.visit.params with
  | some prop =>
    if w.visit.params.contains "contentIfEmpty" then
      (w.editVisit fun v =>
        ((v.addPrelude (.guard .falsy prop)).addContent .guardEnd).addContent (.slot prop)).declare
          prop anyType
    else w
  | none => w

def Work.drawGuard (key : String) (g : Guard) (w : Work) : Work :=
  match Params.value? key w.visit.params with
  | some prop =>
    (w.editVisit fun v => (v.addPrelude (.guard g prop)).addContent .guardEnd).declare prop anyType
  | none => w

def Visit.setProperty (name code : String) (v : Visit) : Visit :=
  { v with properties := Table.put name code v.properties }

def Work.bindClick (w : Work) : Work :=
  match Params.value? "onClick" w.visit.params with
  | some prop => (w.editVisit (Visit.setProperty "onClick" prop)).declare prop mouseHandlerType
  | none => w

def Visit.setId (v : Visit) : Visit :=
  match Params.value? "id" v.params with
  | some id => v.setProperty "id" ("'" ++ id ++ "'")
  | none => v

def Visit.addNamedClass (v : Visit) : Visit :=
  match Params.value? "class" v.params with
  | some name => v.addClass (.named name)
  | none => v

/-- A mask that no sibling takes draws nothing. -/
def Visit.hideMask (v : Visit) : Visit := if v.node.attrs.isMask then v.clear else v

def stretchesHorizontally : HorizontalConstraint → Bool
  | .leftRight | .scale => true
  | _ => false

def stretchesVertically : VerticalConstraint → Bool
  | .topBottom | .scale => true
  | _ => false

def stretchDeclarations (horizontal vertical : Bool) : List String :=
  (if horizontal then ["left: 0;", "width: 100%;"] else [])
    ++ (if vertical then ["top: 0;", "height: 100%;"] else [])
    ++ match horizontal, vertical with
      | true, true => ["transform: unset;"]
      | true, false => ["transform: translateY(-50%);"]
      | false, true => ["transform: translateX(-50%);"]
      | false, false => []

/-- Draws the markup of a vector, or a picture of it; the error is that of markup that cannot be
drawn. -/
def Work.drawVector (ctx : Context) (w : Work) : Except MarkupError Unit × Work :=
  let node := w.visit.node
  if node.kind ≠ .vector || node.attrs.isMask then (.ok (), w)
  else
    match ctx.resources.vectors.lookup node.attrs.id with
    | none => (.ok (), w)
    | some markup =>
      let (number, w) := (w.editVisit Visit.clear).allot
      let declarations := stretchDeclarations (stretchesHorizontally node.constraints.horizontal)
        (stretchesVertically node.constraints.vertical)
      let w :=
        if declarations.isEmpty then w
        else w.editScope fun s => s.addExtra (.allotted number "" declarations)
      if node.params.contains "vectorImg" then
        match ctx.resources.vectorUrls.lookup node.attrs.id with
        | some url => (.ok (), w.editVisit fun v => v.addContent (.picture number url))
        | none => (.ok (), w)
      else
        let className := "vector " ++ numberedClass w.scope.classPrefix number
        let drawn := Markup.transcode markup { source := node.attrs.id, className := some className }
        match drawn with
        | .ok e => (.ok (), w.editVisit fun v => v.addContent (.drawing number e))
        | .error e => (if ctx.options.strictMarkup || e.endsRun then .error e else .ok (), w)

def Visit.showComponent (name : String) (v : Visit) : Visit :=
  v.clear.addContent (.component name v.sceneId)

def Work.useComponent (c : Component) (w : Work) : Work :=
  let (number, w) := (w.editScope fun s => s.addImport c.asImport).allot
  let w := w.editScope fun s =>
    s.addExtra (.allotted number " > :global(*)" ["height: 100%;", "width: 100%;"])
  w.editVisit fun v => v.addClass (.numbered number)

def Work.addDescription (ctx : Context) (w : Work) : Work :=
  match ctx.descriptionStyles? w.visit.node with
  | some styles => w.editScope fun s => s.addExtra (.written styles)
  | none => w

/-- A step on a visit that may also use the registry. Its changes stay when it fails. -/
abbrev Drawing := ExceptT DesignError (StateM (Work × Registry))

def Drawing.edit (f : Work → Work) : Drawing Unit := modify fun (w, registry) => (f w, registry)

def Drawing.register {α : Type} (step : Registering α) : Drawing α :=
  ExceptT.mk fun (w, registry) =>
    let (result, registry) := step.run registry
    (result, w, registry)

/-- Shows a node that is a component itself by the name of that component, which `nested` builds;
nothing nested is built for the root of a component. -/
def drawNested (ctx : Context) (nested : Option (Registering Component)) : Drawing Unit := do
  match nested with
  | none => return
  | some build =>
    let (w, _) ← get
    let attrs := w.visit.node.attrs
    if attrs.isComponentRoot then
      let name := componentName ctx.options.delimiters attrs.name
      Drawing.edit fun w => w.editVisit (Visit.showComponent name)
      let component ← Drawing.register build
      Drawing.edit (Work.useComponent component)
    else Drawing.edit (Work.addDescription ctx)

def drawVector (ctx : Context) : Drawing Unit :=
  ExceptT.mk fun (w, registry) =>
    let (result, w) := w.drawVector ctx
    (result.mapError .markup, w, registry)

/-- Runs a plugin. If the node is not the root of the component that is drawn, `nested` builds the
component whose root it is. -/
def ContentPlugin.apply (ctx : Context) (nested : Option (Registering Component)) :
    ContentPlugin → Drawing Unit
  | .nameStyles => .edit fun w => w.editVisit Visit.applyNameStyles
  | .nestedComponent => drawNested ctx nested
  | .renderMask => .edit fun w => w.editVisit Visit.hideMask
  | .renderVector => drawVector ctx
  | .contentSlot => .edit Work.drawSlot
  | .contentSlotFallback => .edit Work.drawSlotFallback
  | .ifTrue => .edit (Work.drawGuard "ifTrue" .truthy)
  | .ifFalse => .edit (Work.drawGuard "ifFalse" .falsy)
  | .onClick => .edit Work.bindClick
  | .elementId => .edit fun w => w.editVisit Visit.setId
  | .extraClass => .edit fun w => w.editVisit Visit.addNamedClass
  | .text => .edit Work.drawText

end DesignCompiler

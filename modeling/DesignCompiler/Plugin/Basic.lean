namespace DesignCompiler

inductive StylePlugin where
  | middleOrder | transformation | horizontalAlign | verticalAlign | autoLayout | frameStyles
  | maskCompositing
  deriving Repr, DecidableEq

inductive ContentPlugin where
  | nameStyles | nestedComponent | renderMask | renderVector | contentSlot | contentSlotFallback
  | ifTrue | ifFalse | onClick | elementId | extraClass | text
  deriving Repr, DecidableEq

namespace StylePlugin

def all : List StylePlugin :=
  [.middleOrder, .transformation, .horizontalAlign, .verticalAlign, .autoLayout, .frameStyles,
    .maskCompositing]

def name : StylePlugin → String
  | .middleOrder => "middle-order"
  | .transformation => "transformation"
  | .horizontalAlign => "horizontal-align"
  | .verticalAlign => "vertical-align"
  | .autoLayout => "auto-layout"
  | .frameStyles => "frame-styles"
  | .maskCompositing => "mask-compositing"

end StylePlugin

namespace ContentPlugin

def all : List ContentPlugin :=
  [.nameStyles, .nestedComponent, .renderMask, .renderVector, .contentSlot, .contentSlotFallback,
    .ifTrue, .ifFalse, .onClick, .elementId, .extraClass, .text]

def name : ContentPlugin → String
  | .nameStyles => "name-styles"
  | .nestedComponent => "component-from-cache"
  | .renderMask => "render-mask"
  | .renderVector => "render-vector"
  | .contentSlot => "content-slot"
  | .contentSlotFallback => "content-slot-fallback"
  | .ifTrue => "if-true"
  | .ifFalse => "if-false"
  | .onClick => "on-click"
  | .elementId => "id"
  | .extraClass => "class"
  | .text => "text"

end ContentPlugin

/-- The plugins of a run in order. Style plugins write the styles of the wrappers; content plugins write fragments,
classes and attributes after them. -/
structure PluginSet where
  style : List StylePlugin := StylePlugin.all
  content : List ContentPlugin := ContentPlugin.all
  deriving Repr, DecidableEq

namespace PluginSet

def names (p : PluginSet) : List String :=
  p.style.map StylePlugin.name ++ p.content.map ContentPlugin.name

def ofNames (names : List String) : PluginSet where
  style := names.filterMap fun n => StylePlugin.all.find? fun p => p.name = n
  content := names.filterMap fun n => ContentPlugin.all.find? fun p => p.name = n

def without (name : String) (p : PluginSet) : PluginSet where
  style := p.style.filter fun q => q.name ≠ name
  content := p.content.filter fun q => q.name ≠ name

end PluginSet

end DesignCompiler

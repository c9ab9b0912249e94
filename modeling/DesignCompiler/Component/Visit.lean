import DesignCompiler.Component.Rendered
import DesignCompiler.Placement.Recipe
import DesignCompiler.Tree

namespace DesignCompiler

structure Place where
  /-- The node whose wrapper is around this one; groups are seen through. The root of a component has
  none. -/
  parent : Option Node := none
  /-- The item of the same stack before this one. -/
  previous : Option Node := none
  order : Nat := 0

structure Visit where
  node : Node
  place : Place := {}
  outer : StyleMap := []
  middle : StyleMap := [("position", "relative"), ("boxSizing", "border-box"),
    ("pointerEvents", "auto")]
  inner : StyleMap := []
  properties : Table String := []
  classes : List ClassName := []
  prelude : List Fragment := []
  content : List Fragment := []
  cleared : Bool := false

namespace Visit

variable (v : Visit)

def isRoot : Bool := v.place.parent.isNone

def bounds? : Option Placement.Bounds :=
  Placement.bounds? v.node.attrs (v.place.parent.map (·.attrs)) (v.place.previous.map (·.attrs))

def params : Params := v.node.params

def sceneId : String := v.node.attrs.id

def clear : Visit := { v with cleared := true, content := [] }

def addContent (f : Fragment) : Visit := { v with content := v.content ++ [f] }

def addPrelude (f : Fragment) : Visit := { v with prelude := v.prelude ++ [f] }

def addClass (c : ClassName) : Visit := { v with classes := v.classes ++ [c] }

def setMiddle (property : String) (value : StyleValue) : Visit :=
  { v with middle := v.middle.set property value }

end Visit

structure Work where
  visit : Visit
  scope : Scope

namespace Work

variable (w : Work)

def editVisit (f : Visit → Visit) : Work := { w with visit := f w.visit }

def editScope (f : Scope → Scope) : Work := { w with scope := f w.scope }

def allot : Nat × Work :=
  let (number, scope) := w.scope.allot
  (number, { w with scope })

def addStyle (style : StyleMap) : Option Rule × Work :=
  let (rule, scope) := w.scope.addStyle style
  (rule, { w with scope })

end Work

end DesignCompiler

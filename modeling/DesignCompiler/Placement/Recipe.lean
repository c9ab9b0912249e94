import DesignCompiler.Placement.Bounds
import DesignCompiler.Style.Paint

namespace DesignCompiler.Placement

/-- How a constraint places a node along one axis. Of up to three nested wrappers the outer one places the node in its
parent, and the middle one is the node's own box. -/
inductive Recipe where
  | fixedMargin
  | edgeAnchored
  | centered
  | scaled
  | stretch
  deriving Repr, DecidableEq

def Recipe.name : Recipe → String
  | .fixedMargin => "FixedMargin"
  | .edgeAnchored => "EdgeAnchored"
  | .centered => "Centered"
  | .scaled => "Scaled"
  | .stretch => "Stretch"

/-- A recipe, and whether the measured size is a lower bound. -/
structure AxisRule where
  recipe : Recipe
  pinSize : Bool
  deriving Repr, DecidableEq

def horizontalRule : HorizontalConstraint → AxisRule
  | .left => ⟨.fixedMargin, true⟩
  | .right => ⟨.edgeAnchored, true⟩
  | .center => ⟨.centered, false⟩
  | .leftRight => ⟨.stretch, false⟩
  | .scale => ⟨.scaled, false⟩

def verticalRule : VerticalConstraint → AxisRule
  | .top => ⟨.fixedMargin, true⟩
  | .bottom => ⟨.edgeAnchored, false⟩
  | .center => ⟨.centered, false⟩
  | .topBottom => ⟨.stretch, false⟩
  | .scale => ⟨.scaled, false⟩

def Recipe.keepsSize : Recipe → Bool
  | .stretch | .scaled => false
  | _ => true

structure Wrappers where
  outer : StyleMap := []
  middle : StyleMap := []
  deriving Repr, DecidableEq

/-- A part in percent of a whole; nothing is 0% of nothing. -/
def share (part whole : Float) : String :=
  percent (if whole == 0 then 0 else part * 100 / whole)

def Recipe.horizontalOuter : Recipe → StyleMap
  | .fixedMargin => []
  | .edgeAnchored =>
    [("width", "100%"), ("pointerEvents", "none"), ("justifyContent", "flex-end")]
  | .centered => [("width", "100%"), ("pointerEvents", "none"), ("justifyContent", "center")]
  | .scaled => [("width", "100%"), ("pointerEvents", "none"), ("justifyContent", "flex-start")]
  | .stretch => [("pointerEvents", "none"), ("justifyContent", "stretch")]

def Recipe.horizontalMiddle (b : Bounds) : Recipe → StyleMap
  | .fixedMargin => [("marginLeft", b.left)]
  | .edgeAnchored => [("marginRight", b.right)]
  | .centered => [("marginLeft", .number (b.left - b.right))]
  | .scaled =>
    [("width", share b.width b.parentWidth), ("marginLeft", share b.left b.parentWidth)]
  | .stretch => [("marginLeft", b.left), ("marginRight", b.right), ("flexGrow", .number 1)]

def Recipe.measured (recipe : Recipe) (property : String) (size : Float) : StyleMap :=
  if size != 0 && recipe.keepsSize then [(property, size)] else []

def placeHorizontal (constraint : HorizontalConstraint) (b : Bounds) (w : Wrappers) : Wrappers :=
  let ⟨recipe, pinSize⟩ := horizontalRule constraint
  { outer := w.outer
      |>.merge [("position", "relative"), ("display", "flex")]
      |>.merge recipe.horizontalOuter
    middle := w.middle
      |>.merge (recipe.measured "width" b.width)
      |>.merge (if pinSize then [("minWidth", b.width)] else [])
      |>.merge (recipe.horizontalMiddle b) }

/-- The outer wrapper as a layer over the whole parent, which does not catch the pointer. -/
def overlay : StyleMap :=
  [("display", "flex"), ("width", "100%"), ("pointerEvents", "none"), ("position", "absolute"),
    ("height", "100%"), ("left", .number 0)]

def Recipe.verticalOuter : Recipe → StyleMap
  | .fixedMargin => [("position", "relative"), ("display", "flex")]
  | .edgeAnchored => overlay.merge [("bottom", .number 0), ("alignItems", "flex-end")]
  | .centered => overlay.merge [("top", .number 0), ("alignItems", "center")]
  | .scaled => overlay.merge [("top", .number 0), ("alignItems", "flex-start")]
  | .stretch => overlay.merge [("top", .number 0), ("alignItems", "stretch")]

def Recipe.verticalMiddle (b : Bounds) : Recipe → StyleMap
  | .fixedMargin => [("marginTop", b.top)]
  | .edgeAnchored => [("marginBottom", b.bottom)]
  | .centered => [("marginTop", .number (b.top - b.bottom))]
  | .scaled => [("height", share b.height b.parentHeight), ("top", share b.top b.parentHeight)]
  | .stretch => [("marginTop", b.top), ("marginBottom", b.bottom)]

def placeVertical (constraint : VerticalConstraint) (b : Bounds) (w : Wrappers) : Wrappers :=
  let ⟨recipe, pinSize⟩ := verticalRule constraint
  let middle := w.middle
    |>.merge (recipe.measured "height" b.height)
    |>.set "position" "relative"
    |>.merge (recipe.verticalMiddle b)
  { outer := w.outer.merge recipe.verticalOuter
    middle := if pinSize then (middle.erase "height").set "minHeight" b.height else middle }

end DesignCompiler.Placement

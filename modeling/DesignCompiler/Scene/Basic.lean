import DesignCompiler.Geometry
import DesignCompiler.Table

namespace DesignCompiler

inductive NodeType where
  | document | canvas | frame | group | vector | booleanOperation | star | line | ellipse
  | regularPolygon | rectangle | text | slice | component | componentSet | instanceNode | unknown
  deriving Repr, DecidableEq, Inhabited

/-- Leaf shapes that render as a single vector graphic. -/
def NodeType.isVectorFamily : NodeType → Bool
  | .vector | .line | .regularPolygon | .ellipse | .star => true
  | _ => false

/-- Transparent groups, whose children are laid out as children of the group's parent. -/
def NodeType.isGroupFamily : NodeType → Bool
  | .group | .booleanOperation => true
  | _ => false

def NodeType.isFrameLike : NodeType → Bool
  | .frame | .component | .instanceNode => true
  | _ => false

inductive HorizontalConstraint where
  | left | right | center | leftRight | scale
  deriving Repr, DecidableEq, Inhabited

inductive VerticalConstraint where
  | top | bottom | center | topBottom | scale
  deriving Repr, DecidableEq, Inhabited

structure Constraints where
  horizontal : HorizontalConstraint := .left
  vertical : VerticalConstraint := .top
  deriving Repr, DecidableEq, Inhabited

structure Color where
  r : Float
  g : Float
  b : Float
  a : Float
  deriving Repr, BEq, DecidableEq

def Color.black : Color := ⟨0, 0, 0, 1⟩

inductive PaintType where
  | solid | gradientLinear | gradientRadial | gradientAngular | gradientDiamond | image | emoji
  | unknown
  deriving Repr, DecidableEq

inductive ScaleMode where
  | fill | fit | tile | stretch | unknown
  deriving Repr, DecidableEq

inductive BlendMode where
  | passThrough | normal | darken | multiply | linearBurn | colorBurn | lighten | screen
  | linearDodge | colorDodge | overlay | softLight | hardLight | difference | exclusion | hue
  | saturation | color | luminosity | other
  deriving Repr, DecidableEq

def BlendMode.isNormal : BlendMode → Bool
  | .passThrough | .normal => true
  | _ => false

structure ColorStop where
  position : Float
  color : Color
  deriving Repr, BEq, DecidableEq

structure Paint where
  kind : PaintType
  visible : Bool := true
  opacity : Option Float := none
  color : Option Color := none
  gradientHandles : List (Point Float) := []
  gradientStops : List ColorStop := []
  scaleMode : Option ScaleMode := none
  imageRef : Option String := none
  scalingFactor : Option Float := none
  imageTransform : Option (Affine Float) := none
  blendMode : Option BlendMode := none
  deriving Repr, BEq, DecidableEq

/-- Several visible paints, or an emoji, have no counterpart in a style sheet. -/
def Paint.requireRender (paints : List Paint) : Bool :=
  let visible := paints.filter (·.visible)
  visible.any (·.kind = .emoji) || 1 < visible.length

inductive EffectType where
  | innerShadow | dropShadow | layerBlur | backgroundBlur | unknown
  deriving Repr, DecidableEq

structure Effect where
  kind : EffectType
  visible : Bool := true
  radius : Float := 0
  color : Option Color := none
  offset : Option (Point Float) := none
  deriving Repr, BEq, DecidableEq

inductive TextAlignHorizontal where
  | left | right | center | justified
  deriving Repr, DecidableEq

inductive TextAlignVertical where
  | top | center | bottom
  deriving Repr, DecidableEq

structure TypeStyle where
  fontFamily : Option String := none
  fontWeight : Option Float := none
  fontSize : Option Float := none
  italic : Bool := false
  textAlignHorizontal : Option TextAlignHorizontal := none
  textAlignVertical : Option TextAlignVertical := none
  letterSpacing : Option Float := none
  lineHeightPercent : Option Float := none
  fills : List Paint := []
  deriving Repr, BEq, DecidableEq

inductive LayoutMode where
  | none | horizontal | vertical
  deriving Repr, DecidableEq, Inhabited

structure NodeAttributes where
  id : String := ""
  name : String := ""
  kind : NodeType := .frame
  visible : Bool := true
  fills : List Paint := []
  strokes : List Paint := []
  strokeWeight : Option Float := none
  effects : List Effect := []
  constraints : Option Constraints := none
  absoluteBox : Option (Box Float) := none
  size : Option (Point Float) := none
  relativeTransform : Option (Affine Float) := none
  backgroundColor : Option Color := none
  clipsContent : Bool := false
  isMask : Bool := false
  blendMode : Option BlendMode := none
  opacity : Option Float := none
  cornerRadii : Option (List Float) := none
  characters : Option String := none
  styleOverrides : List Nat := []
  styleOverrideTable : Table TypeStyle := []
  style : Option TypeStyle := none
  layoutMode : Option LayoutMode := none
  itemSpacing : Option Float := none
  componentId : Option String := none
  deriving Repr, BEq, DecidableEq, Inhabited

namespace NodeAttributes

variable (attrs : NodeAttributes)

/-- A name that begins with `#` names a component. -/
def isComponentRoot : Bool := attrs.name.toList.head? = some '#'

def unturnedSize : Point Float :=
  attrs.size.getD ((attrs.absoluteBox.map Box.size).getD .zero)

def requiresRender : Bool :=
  Paint.requireRender attrs.fills || Paint.requireRender attrs.strokes
    || attrs.blendMode.any fun mode => !mode.isNormal

end NodeAttributes

structure SceneNode where
  attrs : NodeAttributes
  children : List SceneNode := []
  deriving Repr, BEq, Inhabited

namespace SceneNode

mutual

def find? (id : String) : SceneNode → Option SceneNode
  | ⟨attrs, children⟩ => if attrs.id = id then some ⟨attrs, children⟩ else findIn? id children

def findIn? (id : String) : List SceneNode → Option SceneNode
  | [] => none
  | node :: rest => (find? id node).or (findIn? id rest)

end

end SceneNode

end DesignCompiler

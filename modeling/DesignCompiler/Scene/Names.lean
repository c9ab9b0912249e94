import DesignCompiler.Scene.Basic

namespace DesignCompiler

/-- A choice with all its values and their names. A document may be newer than this list: where it may, any other name
reads as the last, unknown value. -/
class Named (α : Type) where
  all : List α
  name : α → String

def Named.ofName? {α : Type} [Named α] (s : String) : Option α :=
  (Named.all (α := α)).find? fun a => Named.name a = s

instance : Named NodeType where
  all := [.document, .canvas, .frame, .group, .vector, .booleanOperation, .star, .line, .ellipse,
    .regularPolygon, .rectangle, .text, .slice, .component, .componentSet, .instanceNode, .unknown]
  name
    | .document => "DOCUMENT"
    | .canvas => "CANVAS"
    | .frame => "FRAME"
    | .group => "GROUP"
    | .vector => "VECTOR"
    | .booleanOperation => "BOOLEAN_OPERATION"
    | .star => "STAR"
    | .line => "LINE"
    | .ellipse => "ELLIPSE"
    | .regularPolygon => "REGULAR_POLYGON"
    | .rectangle => "RECTANGLE"
    | .text => "TEXT"
    | .slice => "SLICE"
    | .component => "COMPONENT"
    | .componentSet => "COMPONENT_SET"
    | .instanceNode => "INSTANCE"
    | .unknown => "UNKNOWN"

instance : Named HorizontalConstraint where
  all := [.left, .right, .center, .leftRight, .scale]
  name
    | .left => "LEFT"
    | .right => "RIGHT"
    | .center => "CENTER"
    | .leftRight => "LEFT_RIGHT"
    | .scale => "SCALE"

instance : Named VerticalConstraint where
  all := [.top, .bottom, .center, .topBottom, .scale]
  name
    | .top => "TOP"
    | .bottom => "BOTTOM"
    | .center => "CENTER"
    | .topBottom => "TOP_BOTTOM"
    | .scale => "SCALE"

instance : Named PaintType where
  all := [.solid, .gradientLinear, .gradientRadial, .gradientAngular, .gradientDiamond, .image,
    .emoji, .unknown]
  name
    | .solid => "SOLID"
    | .gradientLinear => "GRADIENT_LINEAR"
    | .gradientRadial => "GRADIENT_RADIAL"
    | .gradientAngular => "GRADIENT_ANGULAR"
    | .gradientDiamond => "GRADIENT_DIAMOND"
    | .image => "IMAGE"
    | .emoji => "EMOJI"
    | .unknown => "UNKNOWN"

instance : Named ScaleMode where
  all := [.fill, .fit, .tile, .stretch, .unknown]
  name
    | .fill => "FILL"
    | .fit => "FIT"
    | .tile => "TILE"
    | .stretch => "STRETCH"
    | .unknown => "UNKNOWN"

instance : Named BlendMode where
  all := [.passThrough, .normal, .darken, .multiply, .linearBurn, .colorBurn, .lighten, .screen,
    .linearDodge, .colorDodge, .overlay, .softLight, .hardLight, .difference, .exclusion, .hue,
    .saturation, .color, .luminosity, .other]
  name
    | .passThrough => "PASS_THROUGH"
    | .normal => "NORMAL"
    | .darken => "DARKEN"
    | .multiply => "MULTIPLY"
    | .linearBurn => "LINEAR_BURN"
    | .colorBurn => "COLOR_BURN"
    | .lighten => "LIGHTEN"
    | .screen => "SCREEN"
    | .linearDodge => "LINEAR_DODGE"
    | .colorDodge => "COLOR_DODGE"
    | .overlay => "OVERLAY"
    | .softLight => "SOFT_LIGHT"
    | .hardLight => "HARD_LIGHT"
    | .difference => "DIFFERENCE"
    | .exclusion => "EXCLUSION"
    | .hue => "HUE"
    | .saturation => "SATURATION"
    | .color => "COLOR"
    | .luminosity => "LUMINOSITY"
    | .other => "OTHER"

instance : Named EffectType where
  all := [.innerShadow, .dropShadow, .layerBlur, .backgroundBlur, .unknown]
  name
    | .innerShadow => "INNER_SHADOW"
    | .dropShadow => "DROP_SHADOW"
    | .layerBlur => "LAYER_BLUR"
    | .backgroundBlur => "BACKGROUND_BLUR"
    | .unknown => "UNKNOWN"

instance : Named TextAlignHorizontal where
  all := [.left, .right, .center, .justified]
  name
    | .left => "LEFT"
    | .right => "RIGHT"
    | .center => "CENTER"
    | .justified => "JUSTIFIED"

instance : Named TextAlignVertical where
  all := [.top, .center, .bottom]
  name
    | .top => "TOP"
    | .center => "CENTER"
    | .bottom => "BOTTOM"

instance : Named LayoutMode where
  all := [.none, .horizontal, .vertical]
  name
    | .none => "NONE"
    | .horizontal => "HORIZONTAL"
    | .vertical => "VERTICAL"

end DesignCompiler

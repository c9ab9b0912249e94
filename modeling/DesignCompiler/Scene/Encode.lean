import DesignCompiler.Json.Record
import DesignCompiler.Scene.Names

namespace DesignCompiler

open Json

def Named.encode {α : Type} [Named α] (a : α) : Json := .string (Named.name a)

def Constraints.encode (c : Constraints) : Json :=
  .object [("horizontal", Named.encode c.horizontal), ("vertical", Named.encode c.vertical)]

def Color.encode (c : Color) : Json :=
  .object [("r", float c.r), ("g", float c.g), ("b", float c.b), ("a", float c.a)]

def Point.encode (p : Point Float) : Json := .object [("x", float p.x), ("y", float p.y)]

def Box.encode (b : Box Float) : Json :=
  .object [("x", float b.x), ("y", float b.y), ("width", float b.width), ("height", float b.height)]

def Affine.encode (m : Affine Float) : Json :=
  .array [.array [float m.xx, float m.xy, float m.dx], .array [float m.yx, float m.yy, float m.dy]]

def ColorStop.encode (s : ColorStop) : Json :=
  .object [("position", float s.position), ("color", s.color.encode)]

def Paint.encode (p : Paint) : Json :=
  .object <|
    [("type", Named.encode p.kind), ("visible", .bool p.visible)]
      ++ given "opacity" float p.opacity
      ++ given "color" Color.encode p.color
      ++ entries? "gradientHandlePositions" Point.encode p.gradientHandles
      ++ entries? "gradientStops" ColorStop.encode p.gradientStops
      ++ given "scaleMode" Named.encode p.scaleMode
      ++ given "imageRef" .string p.imageRef
      ++ given "scalingFactor" float p.scalingFactor
      ++ given "imageTransform" Affine.encode p.imageTransform
      ++ given "blendMode" Named.encode p.blendMode

def Effect.encode (e : Effect) : Json :=
  .object <|
    [("type", Named.encode e.kind), ("visible", .bool e.visible), ("radius", float e.radius)]
      ++ given "color" Color.encode e.color
      ++ given "offset" Point.encode e.offset

def TypeStyle.encode (s : TypeStyle) : Json :=
  .object <|
    given "fontFamily" .string s.fontFamily
      ++ given "fontWeight" float s.fontWeight
      ++ given "fontSize" float s.fontSize
      ++ [("italic", .bool s.italic)]
      ++ given "textAlignHorizontal" Named.encode s.textAlignHorizontal
      ++ given "textAlignVertical" Named.encode s.textAlignVertical
      ++ given "letterSpacing" float s.letterSpacing
      ++ given "lineHeightPercent" float s.lineHeightPercent
      ++ entries? "fills" Paint.encode s.fills

def TypeStyle.tableEntry (name : String) : List (String × TypeStyle) → List (String × Json)
  | [] => []
  | rows => [(name, .object (rows.map fun (key, style) => (key, style.encode)))]

def NodeAttributes.encode (a : NodeAttributes) : List (String × Json) :=
  [("id", .string a.id), ("name", .string a.name), ("type", Named.encode a.kind),
      ("visible", .bool a.visible)]
    ++ entries? "fills" Paint.encode a.fills
    ++ entries? "strokes" Paint.encode a.strokes
    ++ given "strokeWeight" float a.strokeWeight
    ++ entries? "effects" Effect.encode a.effects
    ++ given "constraints" Constraints.encode a.constraints
    ++ given "absoluteBoundingBox" Box.encode a.absoluteBox
    ++ given "size" Point.encode a.size
    ++ given "relativeTransform" Affine.encode a.relativeTransform
    ++ given "backgroundColor" Color.encode a.backgroundColor
    ++ [("clipsContent", .bool a.clipsContent), ("isMask", .bool a.isMask)]
    ++ given "blendMode" Named.encode a.blendMode
    ++ given "opacity" float a.opacity
    ++ given "rectangleCornerRadii" (fun radii => .array (radii.map float)) a.cornerRadii
    ++ given "characters" .string a.characters
    ++ entries? "characterStyleOverrides" nat a.styleOverrides
    ++ TypeStyle.tableEntry "styleOverrideTable" a.styleOverrideTable
    ++ given "style" TypeStyle.encode a.style
    ++ given "layoutMode" Named.encode a.layoutMode
    ++ given "itemSpacing" float a.itemSpacing
    ++ given "componentId" .string a.componentId

namespace SceneNode

mutual

def encode : SceneNode → Json
  | ⟨attrs, []⟩ => .object attrs.encode
  | ⟨attrs, child :: rest⟩ =>
    .object (attrs.encode ++ [("children", .array (encode child :: encodeAll rest))])

def encodeAll : List SceneNode → List Json
  | [] => []
  | node :: rest => encode node :: encodeAll rest

end

end SceneNode

end DesignCompiler

import DesignCompiler.Json.Record
import DesignCompiler.Scene.Names

namespace DesignCompiler

open Json

def Color.decode? (json : Json) : Option Color := do
  let given ← record? ["r", "g", "b", "a"] json
  return {
    r := ← required? given "r" float?
    g := ← required? given "g" float?
    b := ← required? given "b" float?
    a := ← withDefault? given "a" 1 float? }

def Point.decode? (json : Json) : Option (Point Float) := do
  let given ← record? ["x", "y"] json
  return ⟨← required? given "x" float?, ← required? given "y" float?⟩

def Box.decode? (json : Json) : Option (Box Float) := do
  let given ← record? ["x", "y", "width", "height"] json
  return {
    x := ← required? given "x" float?
    y := ← required? given "y" float?
    width := ← required? given "width" float?
    height := ← required? given "height" float? }

def Affine.decode? : Json → Option (Affine Float)
  | .array [.array [xx, xy, dx], .array [yx, yy, dy]] => do
    return {
      xx := ← float? xx, xy := ← float? xy, dx := ← float? dx
      yx := ← float? yx, yy := ← float? yy, dy := ← float? dy }
  | _ => none

def ColorStop.decode? (json : Json) : Option ColorStop := do
  let given ← record? ["position", "color"] json
  return ⟨← required? given "position" float?, ← required? given "color" Color.decode?⟩

section Choices

variable (name? : Json → Option String)

/-- A choice whose names are closed. -/
def Named.decodeBy? {α : Type} [Named α] (json : Json) : Option α :=
  (name? json).bind Named.ofName?

/-- A choice in which every other name means `other`. -/
def Named.decodeOr? {α : Type} [Named α] (other : α) (json : Json) : Option α :=
  (name? json).map fun s => (Named.ofName? s).getD other

def Constraints.decodeBy? (json : Json) : Option Constraints := do
  let given ← record? ["horizontal", "vertical"] json
  return {
    horizontal := ← withDefault? given "horizontal" .left (Named.decodeBy? name?)
    vertical := ← withDefault? given "vertical" .top (Named.decodeBy? name?) }

def Paint.fields : List String :=
  ["type", "visible", "opacity", "color", "gradientHandlePositions", "gradientStops", "scaleMode",
    "imageRef", "scalingFactor", "imageTransform", "blendMode"]

def Paint.decodeBy? (json : Json) : Option Paint := do
  let given ← record? Paint.fields json
  return {
    kind := ← required? given "type" (Named.decodeOr? name? .unknown)
    visible := ← withDefault? given "visible" true bool?
    opacity := ← optional? given "opacity" float?
    color := ← optional? given "color" Color.decode?
    gradientHandles := ← withDefault? given "gradientHandlePositions" [] (list? Point.decode?)
    gradientStops := ← withDefault? given "gradientStops" [] (list? ColorStop.decode?)
    scaleMode := ← optional? given "scaleMode" (Named.decodeOr? name? .unknown)
    imageRef := ← optional? given "imageRef" string?
    scalingFactor := ← optional? given "scalingFactor" float?
    imageTransform := ← optional? given "imageTransform" Affine.decode?
    blendMode := ← optional? given "blendMode" (Named.decodeOr? name? .other) }

def Effect.decodeBy? (json : Json) : Option Effect := do
  let given ← record? ["type", "visible", "radius", "color", "offset"] json
  return {
    kind := ← required? given "type" (Named.decodeOr? name? .unknown)
    visible := ← withDefault? given "visible" true bool?
    radius := ← withDefault? given "radius" 0 float?
    color := ← optional? given "color" Color.decode?
    offset := ← optional? given "offset" Point.decode? }

def TypeStyle.fields : List String :=
  ["fontFamily", "fontWeight", "fontSize", "italic", "textAlignHorizontal", "textAlignVertical",
    "letterSpacing", "lineHeightPercent", "fills"]

def TypeStyle.decodeBy? (json : Json) : Option TypeStyle := do
  let given ← record? TypeStyle.fields json
  return {
    fontFamily := ← optional? given "fontFamily" string?
    fontWeight := ← optional? given "fontWeight" float?
    fontSize := ← optional? given "fontSize" float?
    italic := ← withDefault? given "italic" false bool?
    textAlignHorizontal := ← optional? given "textAlignHorizontal" (Named.decodeBy? name?)
    textAlignVertical := ← optional? given "textAlignVertical" (Named.decodeBy? name?)
    letterSpacing := ← optional? given "letterSpacing" float?
    lineHeightPercent := ← optional? given "lineHeightPercent" float?
    fills := ← withDefault? given "fills" [] (list? (Paint.decodeBy? name?)) }

namespace NodeAttributes

def fields : List String :=
  ["id", "name", "type", "visible", "fills", "strokes", "strokeWeight", "effects", "constraints",
    "absoluteBoundingBox", "size", "relativeTransform", "backgroundColor", "clipsContent", "isMask",
    "blendMode", "opacity", "rectangleCornerRadii", "characters", "characterStyleOverrides",
    "styleOverrideTable", "style", "layoutMode", "itemSpacing", "componentId"]

def ofFields? (given : List (String × Json)) : Option NodeAttributes := do
  return {
    id := ← withDefault? given "id" "" string?
    name := ← withDefault? given "name" "" string?
    kind := ← withDefault? given "type" .frame (Named.decodeOr? name? .unknown)
    visible := ← withDefault? given "visible" true bool?
    fills := ← withDefault? given "fills" [] (list? (Paint.decodeBy? name?))
    strokes := ← withDefault? given "strokes" [] (list? (Paint.decodeBy? name?))
    strokeWeight := ← optional? given "strokeWeight" float?
    effects := ← withDefault? given "effects" [] (list? (Effect.decodeBy? name?))
    constraints := ← optional? given "constraints" (Constraints.decodeBy? name?)
    absoluteBox := ← optional? given "absoluteBoundingBox" Box.decode?
    size := ← optional? given "size" Point.decode?
    relativeTransform := ← optional? given "relativeTransform" Affine.decode?
    backgroundColor := ← optional? given "backgroundColor" Color.decode?
    clipsContent := ← withDefault? given "clipsContent" false bool?
    isMask := ← withDefault? given "isMask" false bool?
    blendMode := ← optional? given "blendMode" (Named.decodeOr? name? .other)
    opacity := ← optional? given "opacity" float?
    cornerRadii := ← optional? given "rectangleCornerRadii" (list? float?)
    characters := ← optional? given "characters" string?
    styleOverrides := ←
      withDefault? given "characterStyleOverrides" [] (list? (natBelow? (Nat.pow 2 64)))
    styleOverrideTable := ← withDefault? given "styleOverrideTable" [] (table? (TypeStyle.decodeBy? name?))
    style := ← optional? given "style" (TypeStyle.decodeBy? name?)
    layoutMode := ← optional? given "layoutMode" (Named.decodeBy? name?)
    itemSpacing := ← optional? given "itemSpacing" float?
    componentId := ← optional? given "componentId" string? }

end NodeAttributes

end Choices

def Named.decode? {α : Type} [Named α] : Json → Option α := decodeBy? choice?

def Paint.decode? : Json → Option Paint := decodeBy? choice?

def Effect.decode? : Json → Option Effect := decodeBy? choice?

def TypeStyle.decode? : Json → Option TypeStyle := decodeBy? choice?

def NodeAttributes.decode? (json : Json) : Option NodeAttributes :=
  (record? fields json).bind (ofFields? choice?)

namespace SceneNode

/-- The children that an object lists, unless it lists them twice. -/
def children? (entries : List (String × Json)) : Option (List Json) :=
  match entries.filter fun (name, _) => name = "children" with
  | [] => some []
  | [(_, .array items)] => some items
  | _ => none

theorem sizeOf_lt_of_children? {entries : List (String × Json)} {items : List Json}
    (h : children? entries = some items) (item : Json) (hi : item ∈ items) :
    sizeOf item < sizeOf entries := by
  unfold children? at h
  split at h
  · cases h; cases hi
  · next name items' hf =>
    cases h
    have hm : (name, Json.array items) ∈ entries := by
      have : (name, Json.array items) ∈ entries.filter fun (name, _) => name = "children" := by
        rw [hf]; exact List.mem_singleton.2 rfl
      exact (List.mem_filter.1 this).1
    have h1 := List.sizeOf_lt_of_mem hm
    have h2 := List.sizeOf_lt_of_mem hi
    simp only [Prod.mk.sizeOf_spec, Json.array.sizeOf_spec] at h1
    omega
  · cases h

def decode? : Json → Option SceneNode
  | .object entries => do
    let attrs ← (declared? NodeAttributes.fields entries).bind (NodeAttributes.ofFields? looseChoice?)
    match _h : children? entries with
    | none => none
    | some items =>
      let children ← items.attach.mapM fun ⟨item, _hi⟩ => decode? item
      return ⟨attrs, children⟩
  | _ => none
termination_by json => sizeOf json
decreasing_by
  have := sizeOf_lt_of_children? _h item _hi
  simp only [Json.object.sizeOf_spec]
  omega

end SceneNode

end DesignCompiler

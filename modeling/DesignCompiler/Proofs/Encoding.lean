import DesignCompiler.Scene.Decode
import DesignCompiler.Scene.Encode
import DesignCompiler.Proofs.Records

namespace DesignCompiler

open Json Slots

namespace Named

/-- A choice of which every value is listed and no two have one name. -/
class Faithful (α : Type) [Named α] : Prop where
  ofName?_name (a : α) : ofName? (name a) = some a

instance : Faithful NodeType := ⟨fun a => by cases a <;> rfl⟩

instance : Faithful HorizontalConstraint := ⟨fun a => by cases a <;> rfl⟩

instance : Faithful VerticalConstraint := ⟨fun a => by cases a <;> rfl⟩

instance : Faithful PaintType := ⟨fun a => by cases a <;> rfl⟩

instance : Faithful ScaleMode := ⟨fun a => by cases a <;> rfl⟩

instance : Faithful BlendMode := ⟨fun a => by cases a <;> rfl⟩

instance : Faithful EffectType := ⟨fun a => by cases a <;> rfl⟩

instance : Faithful TextAlignHorizontal := ⟨fun a => by cases a <;> rfl⟩

instance : Faithful TextAlignVertical := ⟨fun a => by cases a <;> rfl⟩

instance : Faithful LayoutMode := ⟨fun a => by cases a <;> rfl⟩

structure Reads (name? : Json → Option String) : Prop where
  string (s : String) : name? (.string s) = some s
  null : name? .null = none

theorem reads_looseChoice : Reads looseChoice? := ⟨fun _ => rfl, rfl⟩

section Leaves

variable {α : Type} [Named α] (a : α)

@[simp]
theorem mapFloats_encode (f : Float → Json) : (encode a).mapFloats f = encode a := rfl

@[simp]
theorem isPlain_encode : (encode a).IsPlain := trivial

end Leaves

section Reads

variable {name? : Json → Option String} (hname : Reads name?)
  {α : Type} [Named α]

include hname

theorem decodeBy?_encode [Faithful α] (a : α) : decodeBy? name? (encode a) = some a := by
  rw [decodeBy?, encode, hname.string]
  exact Faithful.ofName?_name a

theorem decodeOr?_encode [Faithful α] (other a : α) : decodeOr? name? other (encode a) = some a := by
  rw [decodeOr?, encode, hname.string]
  change some ((ofName? (name a)).getD other) = some a
  rw [Faithful.ofName?_name]
  rfl

theorem decodeBy?_null : decodeBy? name? .null = (none : Option α) := by
  rw [decodeBy?, hname.null]
  rfl

theorem decodeOr?_null (other : α) : decodeOr? name? other .null = none := by
  rw [decodeOr?, hname.null]
  rfl

variable {slots : Slots} (h : slots.names.Nodup) {field : String} {a : Option α}
  (hmem : (field, a.map encode) ∈ slots)

include h hmem

theorem optional?_decodeBy? [Faithful α] : optional? (filled slots) field (decodeBy? name?) = some a :=
  optional?_filled encode h hmem (decodeBy?_null hname) fun a _ => decodeBy?_encode hname a

theorem optional?_decodeOr? [Faithful α] (other : α) :
    optional? (filled slots) field (decodeOr? name? other) = some a :=
  optional?_filled encode h hmem (decodeOr?_null hname other) fun a _ => decodeOr?_encode hname other a

end Reads

end Named

open Named

theorem Color.decode?_encode (c : Color) : Color.decode? c.encode = some c := rfl

theorem Point.decode?_encode (p : Point Float) : Point.decode? p.encode = some p := rfl

theorem Box.decode?_encode (b : Box Float) : Box.decode? b.encode = some b := rfl

theorem Affine.decode?_encode (m : Affine Float) : Affine.decode? m.encode = some m := rfl

theorem ColorStop.decode?_encode (s : ColorStop) : ColorStop.decode? s.encode = some s := rfl

def Color.mapFloats (g : Float → Float) (c : Color) : Color := ⟨g c.r, g c.g, g c.b, g c.a⟩

def Point.mapFloats (g : Float → Float) (p : Point Float) : Point Float := ⟨g p.x, g p.y⟩

def Box.mapFloats (g : Float → Float) (b : Box Float) : Box Float := ⟨g b.x, g b.y, g b.width, g b.height⟩

def Affine.mapFloats (g : Float → Float) (m : Affine Float) : Affine Float :=
  ⟨g m.xx, g m.xy, g m.dx, g m.yx, g m.yy, g m.dy⟩

def ColorStop.mapFloats (g : Float → Float) (s : ColorStop) : ColorStop := ⟨g s.position, s.color.mapFloats g⟩

section Doubles

variable (g : Float → Float)

@[simp]
theorem Color.encode_mapFloats (c : Color) :
    (c.mapFloats g).encode = c.encode.mapFloats fun x => float (g x) := rfl

@[simp]
theorem Point.encode_mapFloats (p : Point Float) :
    (p.mapFloats g).encode = p.encode.mapFloats fun x => float (g x) := rfl

@[simp]
theorem Box.encode_mapFloats (b : Box Float) :
    (b.mapFloats g).encode = b.encode.mapFloats fun x => float (g x) := rfl

@[simp]
theorem Affine.encode_mapFloats (m : Affine Float) :
    (m.mapFloats g).encode = m.encode.mapFloats fun x => float (g x) := rfl

@[simp]
theorem ColorStop.encode_mapFloats (s : ColorStop) :
    (s.mapFloats g).encode = s.encode.mapFloats fun x => float (g x) := rfl

end Doubles

@[simp]
theorem Color.isPlain_encode (c : Color) : c.encode.IsPlain := ⟨trivial, trivial, trivial, trivial, trivial⟩

@[simp]
theorem Point.isPlain_encode (p : Point Float) : p.encode.IsPlain := ⟨trivial, trivial, trivial⟩

@[simp]
theorem Box.isPlain_encode (b : Box Float) : b.encode.IsPlain := ⟨trivial, trivial, trivial, trivial, trivial⟩

@[simp]
theorem Affine.isPlain_encode (m : Affine Float) : m.encode.IsPlain :=
  ⟨⟨trivial, trivial, trivial, trivial⟩, ⟨trivial, trivial, trivial, trivial⟩, trivial⟩

@[simp]
theorem ColorStop.isPlain_encode (s : ColorStop) : s.encode.IsPlain :=
  ⟨trivial, s.color.isPlain_encode, trivial⟩

variable {name? : Json → Option String} (hname : Reads name?) (g : Float → Float)

include hname in
theorem Constraints.decodeBy?_encode (c : Constraints) : Constraints.decodeBy? name? c.encode = some c := by
  have hrecord : record? ["horizontal", "vertical"] c.encode =
      some [("horizontal", Named.encode c.horizontal), ("vertical", Named.encode c.vertical)] := rfl
  rw [decodeBy?, hrecord]
  change ((Named.decodeBy? name? (Named.encode c.horizontal)).bind fun horizontal =>
    (Named.decodeBy? name? (Named.encode c.vertical)).bind fun vertical =>
      some ⟨horizontal, vertical⟩) = some c
  rw [Named.decodeBy?_encode hname, Named.decodeBy?_encode hname]
  rfl

@[simp]
theorem Constraints.mapFloats_encode (f : Float → Json) (c : Constraints) :
    c.encode.mapFloats f = c.encode := rfl

@[simp]
theorem Constraints.isPlain_encode (c : Constraints) : c.encode.IsPlain := ⟨trivial, trivial, trivial⟩

namespace Paint

def slots (p : Paint) : Slots :=
  [("type", some (Named.encode p.kind)), ("visible", some (.bool p.visible)),
    ("opacity", p.opacity.map float), ("color", p.color.map Color.encode),
    ("gradientHandlePositions", listed Point.encode p.gradientHandles),
    ("gradientStops", listed ColorStop.encode p.gradientStops), ("scaleMode", p.scaleMode.map Named.encode),
    ("imageRef", p.imageRef.map .string), ("scalingFactor", p.scalingFactor.map float),
    ("imageTransform", p.imageTransform.map Affine.encode), ("blendMode", p.blendMode.map Named.encode)]

theorem encode_eq (p : Paint) : p.encode = .object (filled p.slots) := by
  simp only [encode, slots, filled_cons_some, filled_cons_map, filled_cons_listed, filled_nil,
    List.append_assoc, List.cons_append, List.nil_append, List.append_nil]

theorem nodup_names (p : Paint) : p.slots.names.Nodup := by
  change fields.Nodup
  decide

include hname in
theorem decodeBy?_encode (p : Paint) : Paint.decodeBy? name? p.encode = some p := by
  have h := p.nodup_names
  have hrecord : record? fields p.encode = some (filled p.slots) := by
    rw [encode_eq]
    exact record?_filled h
  -- One line for each field, in declared order.
  unfold Paint.decodeBy?
  exact
    bind_eq_some hrecord <|
    bind_eq_some (required?_filled Named.encode h (by simp [slots]) (decodeOr?_encode hname _ _)) <|
    bind_eq_some (withDefault?_bool h (by simp [slots]) _) <|
    bind_eq_some (optional?_float h (by simp [slots])) <|
    bind_eq_some (optional?_filled Color.encode h (by simp [slots]) rfl fun c _ => c.decode?_encode) <|
    bind_eq_some (withDefault?_listed Point.encode h (by simp [slots]) fun x _ => x.decode?_encode) <|
    bind_eq_some (withDefault?_listed ColorStop.encode h (by simp [slots]) fun s _ => s.decode?_encode) <|
    bind_eq_some (optional?_decodeOr? hname h (by simp [slots]) _) <|
    bind_eq_some (optional?_string h (by simp [slots])) <|
    bind_eq_some (optional?_float h (by simp [slots])) <|
    bind_eq_some (optional?_filled Affine.encode h (by simp [slots]) rfl fun m _ => m.decode?_encode) <|
    bind_eq_some (optional?_decodeOr? hname h (by simp [slots]) _) <|
    rfl

def mapFloats (p : Paint) : Paint :=
  { p with
    opacity := p.opacity.map g
    color := p.color.map (Color.mapFloats g)
    gradientHandles := p.gradientHandles.map (Point.mapFloats g)
    gradientStops := p.gradientStops.map (ColorStop.mapFloats g)
    scalingFactor := p.scalingFactor.map g
    imageTransform := p.imageTransform.map (Affine.mapFloats g) }

@[simp]
theorem encode_mapFloats (p : Paint) :
    (p.mapFloats g).encode = p.encode.mapFloats fun x => float (g x) := by
  rw [encode_eq, encode_eq, mapFloats_filled]
  congr 2
  simp [slots, mapFloats, Slots.mapFloats, Function.comp_def,
    listed_map fun a _ => Point.encode_mapFloats g a, listed_map fun a _ => ColorStop.encode_mapFloats g a]

@[simp]
theorem isPlain_encode (p : Paint) : p.encode.IsPlain := by
  rw [encode_eq, isPlain_filled]
  simp [slots]

end Paint

namespace Effect

def slots (e : Effect) : Slots :=
  [("type", some (Named.encode e.kind)), ("visible", some (.bool e.visible)),
    ("radius", some (float e.radius)), ("color", e.color.map Color.encode),
    ("offset", e.offset.map Point.encode)]

theorem encode_eq (e : Effect) : e.encode = .object (filled e.slots) := by
  simp only [encode, slots, filled_cons_some, filled_cons_map, filled_nil, List.cons_append,
    List.nil_append, List.append_nil]

theorem nodup_names (e : Effect) : e.slots.names.Nodup := by
  change ["type", "visible", "radius", "color", "offset"].Nodup
  decide

include hname in
theorem decodeBy?_encode (e : Effect) : Effect.decodeBy? name? e.encode = some e := by
  have h := e.nodup_names
  have hrecord : record? ["type", "visible", "radius", "color", "offset"] e.encode =
      some (filled e.slots) := by
    rw [encode_eq]
    exact record?_filled h
  unfold Effect.decodeBy?
  exact
    bind_eq_some hrecord <|
    bind_eq_some (required?_filled Named.encode h (by simp [slots]) (decodeOr?_encode hname _ _)) <|
    bind_eq_some (withDefault?_bool h (by simp [slots]) _) <|
    bind_eq_some (withDefault?_filled float h (by simp [slots]) rfl _) <|
    bind_eq_some (optional?_filled Color.encode h (by simp [slots]) rfl fun c _ => c.decode?_encode) <|
    bind_eq_some (optional?_filled Point.encode h (by simp [slots]) rfl fun p _ => p.decode?_encode) <|
    rfl

def mapFloats (e : Effect) : Effect :=
  { e with
    radius := g e.radius
    color := e.color.map (Color.mapFloats g)
    offset := e.offset.map (Point.mapFloats g) }

@[simp]
theorem encode_mapFloats (e : Effect) :
    (e.mapFloats g).encode = e.encode.mapFloats fun x => float (g x) := by
  rw [encode_eq, encode_eq, mapFloats_filled]
  congr 2
  simp [slots, mapFloats, Slots.mapFloats, Function.comp_def]

@[simp]
theorem isPlain_encode (e : Effect) : e.encode.IsPlain := by
  rw [encode_eq, isPlain_filled]
  simp [slots]

end Effect

namespace TypeStyle

def slots (s : TypeStyle) : Slots :=
  [("fontFamily", s.fontFamily.map .string), ("fontWeight", s.fontWeight.map float),
    ("fontSize", s.fontSize.map float), ("italic", some (.bool s.italic)),
    ("textAlignHorizontal", s.textAlignHorizontal.map Named.encode),
    ("textAlignVertical", s.textAlignVertical.map Named.encode), ("letterSpacing", s.letterSpacing.map float),
    ("lineHeightPercent", s.lineHeightPercent.map float), ("fills", listed Paint.encode s.fills)]

theorem encode_eq (s : TypeStyle) : s.encode = .object (filled s.slots) := by
  simp only [encode, slots, filled_cons_some, filled_cons_map, filled_cons_listed, filled_nil,
    List.append_assoc, List.cons_append, List.nil_append, List.append_nil]

theorem nodup_names (s : TypeStyle) : s.slots.names.Nodup := by
  change fields.Nodup
  decide

include hname in
theorem decodeBy?_encode (s : TypeStyle) : TypeStyle.decodeBy? name? s.encode = some s := by
  have h := s.nodup_names
  have hrecord : record? fields s.encode = some (filled s.slots) := by
    rw [encode_eq]
    exact record?_filled h
  unfold TypeStyle.decodeBy?
  exact
    bind_eq_some hrecord <|
    bind_eq_some (optional?_string h (by simp [slots])) <|
    bind_eq_some (optional?_float h (by simp [slots])) <|
    bind_eq_some (optional?_float h (by simp [slots])) <|
    bind_eq_some (withDefault?_bool h (by simp [slots]) _) <|
    bind_eq_some (optional?_decodeBy? hname h (by simp [slots])) <|
    bind_eq_some (optional?_decodeBy? hname h (by simp [slots])) <|
    bind_eq_some (optional?_float h (by simp [slots])) <|
    bind_eq_some (optional?_float h (by simp [slots])) <|
    bind_eq_some (withDefault?_listed Paint.encode h (by simp [slots])
      fun p _ => p.decodeBy?_encode hname) <|
    rfl

def mapFloats (s : TypeStyle) : TypeStyle :=
  { s with
    fontWeight := s.fontWeight.map g
    fontSize := s.fontSize.map g
    letterSpacing := s.letterSpacing.map g
    lineHeightPercent := s.lineHeightPercent.map g
    fills := s.fills.map (Paint.mapFloats g) }

@[simp]
theorem encode_mapFloats (s : TypeStyle) :
    (s.mapFloats g).encode = s.encode.mapFloats fun x => float (g x) := by
  rw [encode_eq, encode_eq, mapFloats_filled]
  congr 2
  simp [slots, mapFloats, Slots.mapFloats, Function.comp_def,
    listed_map fun a _ => Paint.encode_mapFloats g a]

@[simp]
theorem isPlain_encode (s : TypeStyle) : s.encode.IsPlain := by
  rw [encode_eq, isPlain_filled]
  simp [slots]

theorem filled_cons_tabled (name : String) (rows : Table TypeStyle) (slots : Slots) :
    filled ((name, tabled encode rows) :: slots) = tableEntry name rows ++ filled slots := by
  cases rows <;> rfl

end TypeStyle

namespace NodeAttributes

/-- Overrides are 64-bit numbers, and the table of styles has one row under a key. -/
structure Fits (a : NodeAttributes) : Prop where
  overrides : ∀ n ∈ a.styleOverrides, n < Nat.pow 2 64
  table : a.styleOverrideTable.keys.Nodup

def slots (a : NodeAttributes) : Slots :=
  [("id", some (.string a.id)), ("name", some (.string a.name)), ("type", some (Named.encode a.kind)),
    ("visible", some (.bool a.visible)), ("fills", listed Paint.encode a.fills),
    ("strokes", listed Paint.encode a.strokes), ("strokeWeight", a.strokeWeight.map float),
    ("effects", listed Effect.encode a.effects), ("constraints", a.constraints.map Constraints.encode),
    ("absoluteBoundingBox", a.absoluteBox.map Box.encode), ("size", a.size.map Point.encode),
    ("relativeTransform", a.relativeTransform.map Affine.encode),
    ("backgroundColor", a.backgroundColor.map Color.encode), ("clipsContent", some (.bool a.clipsContent)),
    ("isMask", some (.bool a.isMask)), ("blendMode", a.blendMode.map Named.encode),
    ("opacity", a.opacity.map float),
    ("rectangleCornerRadii", a.cornerRadii.map fun radii => .array (radii.map float)),
    ("characters", a.characters.map .string), ("characterStyleOverrides", listed nat a.styleOverrides),
    ("styleOverrideTable", tabled TypeStyle.encode a.styleOverrideTable),
    ("style", a.style.map TypeStyle.encode), ("layoutMode", a.layoutMode.map Named.encode),
    ("itemSpacing", a.itemSpacing.map float), ("componentId", a.componentId.map .string)]

theorem nodup_fields : fields.Nodup := by decide

theorem encode_eq (a : NodeAttributes) : a.encode = filled a.slots := by
  -- The defining equation of so long a list is too large to rewrite with.
  unfold encode
  simp only [slots, filled_cons_some, filled_cons_map, filled_cons_listed, TypeStyle.filled_cons_tabled,
    filled_nil, List.append_assoc, List.cons_append, List.nil_append, List.append_nil]

include hname in
theorem ofFields?_encode {a : NodeAttributes} (hfits : a.Fits) :
    ofFields? name? (filled a.slots) = some a := by
  have h : a.slots.names.Nodup := nodup_fields
  unfold ofFields?
  exact
    bind_eq_some (withDefault?_filled .string h (by simp [slots]) rfl _) <|
    bind_eq_some (withDefault?_filled .string h (by simp [slots]) rfl _) <|
    bind_eq_some (withDefault?_filled Named.encode h (by simp [slots]) (decodeOr?_encode hname _ _) _) <|
    bind_eq_some (withDefault?_bool h (by simp [slots]) _) <|
    bind_eq_some (withDefault?_listed Paint.encode h (by simp [slots])
      fun p _ => p.decodeBy?_encode hname) <|
    bind_eq_some (withDefault?_listed Paint.encode h (by simp [slots])
      fun p _ => p.decodeBy?_encode hname) <|
    bind_eq_some (optional?_float h (by simp [slots])) <|
    bind_eq_some (withDefault?_listed Effect.encode h (by simp [slots])
      fun e _ => e.decodeBy?_encode hname) <|
    bind_eq_some (optional?_filled Constraints.encode h (by simp [slots]) rfl
      fun c _ => c.decodeBy?_encode hname) <|
    bind_eq_some (optional?_filled Box.encode h (by simp [slots]) rfl fun b _ => b.decode?_encode) <|
    bind_eq_some (optional?_filled Point.encode h (by simp [slots]) rfl fun p _ => p.decode?_encode) <|
    bind_eq_some (optional?_filled Affine.encode h (by simp [slots]) rfl fun m _ => m.decode?_encode) <|
    bind_eq_some (optional?_filled Color.encode h (by simp [slots]) rfl fun c _ => c.decode?_encode) <|
    bind_eq_some (withDefault?_bool h (by simp [slots]) _) <|
    bind_eq_some (withDefault?_bool h (by simp [slots]) _) <|
    bind_eq_some (optional?_decodeOr? hname h (by simp [slots]) _) <|
    bind_eq_some (optional?_float h (by simp [slots])) <|
    bind_eq_some (optional?_filled (fun radii => .array (radii.map float)) h (by simp [slots]) rfl
      fun radii _ => list?_map float fun _ _ => rfl) <|
    bind_eq_some (optional?_string h (by simp [slots])) <|
    bind_eq_some (withDefault?_listed nat h (by simp [slots])
      fun n hn => natBelow?_nat (hfits.overrides n hn)) <|
    bind_eq_some (withDefault?_tabled TypeStyle.encode h (by simp [slots]) hfits.table
      fun row _ => row.2.decodeBy?_encode hname) <|
    bind_eq_some (optional?_filled TypeStyle.encode h (by simp [slots]) rfl
      fun s _ => s.decodeBy?_encode hname) <|
    bind_eq_some (optional?_decodeBy? hname h (by simp [slots])) <|
    bind_eq_some (optional?_float h (by simp [slots])) <|
    bind_eq_some (optional?_string h (by simp [slots])) <|
    rfl

def mapFloats (a : NodeAttributes) : NodeAttributes :=
  { a with
    fills := a.fills.map (Paint.mapFloats g)
    strokes := a.strokes.map (Paint.mapFloats g)
    strokeWeight := a.strokeWeight.map g
    effects := a.effects.map (Effect.mapFloats g)
    absoluteBox := a.absoluteBox.map (Box.mapFloats g)
    size := a.size.map (Point.mapFloats g)
    relativeTransform := a.relativeTransform.map (Affine.mapFloats g)
    backgroundColor := a.backgroundColor.map (Color.mapFloats g)
    opacity := a.opacity.map g
    cornerRadii := a.cornerRadii.map (List.map g)
    styleOverrideTable := a.styleOverrideTable.map fun row => (row.1, row.2.mapFloats g)
    style := a.style.map (TypeStyle.mapFloats g)
    itemSpacing := a.itemSpacing.map g }

theorem slots_mapFloats (a : NodeAttributes) :
    (a.mapFloats g).slots = a.slots.mapFloats fun x => float (g x) := by
  have hoverrides : (listed nat a.styleOverrides).map (Json.mapFloats fun x => float (g x)) =
      listed nat a.styleOverrides := by
    simpa using (@listed_map Nat nat (fun x => float (g x)) (fun n => n) a.styleOverrides fun _ _ => rfl).symm
  simp [slots, mapFloats, Slots.mapFloats, Function.comp_def,
    listed_map fun a _ => Paint.encode_mapFloats g a, listed_map fun a _ => Effect.encode_mapFloats g a,
    tabled_map (TypeStyle.encode_mapFloats g), mapFloats_array, hoverrides]

theorem isPlain_slots {a : NodeAttributes} (hfits : a.Fits) :
    ∀ slot ∈ a.slots, ∀ value ∈ slot.2, IsPlain value := by
  have hoverrides : ∀ n ∈ a.styleOverrides, (nat n).IsPlain := fun n hn => isPlain_nat (hfits.overrides n hn)
  simpa [slots, isPlain_array] using hoverrides

theorem Fits.mapFloats {a : NodeAttributes} (hfits : a.Fits) : (a.mapFloats g).Fits where
  overrides := hfits.overrides
  table := by
    have hkeys : (a.mapFloats g).styleOverrideTable.keys = a.styleOverrideTable.keys := by
      simp [NodeAttributes.mapFloats, Table.keys]
    rw [hkeys]
    exact hfits.table

end NodeAttributes

namespace SceneNode

inductive All (P : NodeAttributes → Prop) : SceneNode → Prop
  | mk {attrs : NodeAttributes} {children : List SceneNode} (own : P attrs)
      (below : ∀ child ∈ children, All P child) : All P ⟨attrs, children⟩

theorem encodeAll_eq (children : List SceneNode) : encodeAll children = children.map encode := by
  induction children with
  | nil => rfl
  | cons child children ih => rw [encodeAll, ih, List.map_cons]

def slots (attrs : NodeAttributes) (children : List SceneNode) : Slots :=
  attrs.slots ++ [("children", listed encode children)]

theorem filled_append (s t : Slots) : filled (s ++ t) = filled s ++ filled t := List.filterMap_append

theorem encode_eq (attrs : NodeAttributes) (children : List SceneNode) :
    encode ⟨attrs, children⟩ = .object (filled (slots attrs children)) := by
  rw [slots, filled_append, ← attrs.encode_eq]
  cases children with
  | nil =>
      rw [encode]
      exact congrArg Json.object (List.append_nil _).symm
  | cons child children =>
      rw [encode, encodeAll_eq]
      rfl

theorem name_of_mem_children {children : List SceneNode} {entry : String × Json}
    (h : entry ∈ filled [("children", listed encode children)]) : entry.1 = "children" := by
  have hmem := mem_filled.1 h
  rw [List.mem_singleton, Prod.mk.injEq] at hmem
  exact hmem.1

theorem declared?_slots (attrs : NodeAttributes) (children : List SceneNode) :
    declared? NodeAttributes.fields (filled (slots attrs children)) = some (filled attrs.slots) := by
  have hchildren : "children" ∉ NodeAttributes.fields := by decide
  have hnames : attrs.slots.names.Nodup := NodeAttributes.nodup_fields
  rw [slots, filled_append]
  refine declared?_filled hnames fun entry he => ?_
  rw [name_of_mem_children he]
  exact hchildren

theorem children?_slots (attrs : NodeAttributes) (children : List SceneNode) :
    children? (filled (slots attrs children)) = some (children.map encode) := by
  have hchildren : "children" ∉ NodeAttributes.fields := by decide
  have hattrs : ∀ entry ∈ filled attrs.slots, ¬ decide (entry.1 = "children") = true := by
    intro entry he
    have hname : entry.1 ∈ NodeAttributes.fields :=
      (keys_filled_sublist attrs.slots).subset (List.mem_map_of_mem (f := Prod.fst) he)
    rw [decide_eq_true_eq]
    intro h
    rw [h] at hname
    exact hchildren hname
  rw [children?, slots, filled_append, List.filter_append, List.filter_eq_nil_iff.2 hattrs]
  cases children with
  | nil => rfl
  | cons child children => rfl

theorem decode?_object (entries : List (String × Json)) :
    decode? (.object entries) =
      ((declared? NodeAttributes.fields entries).bind (NodeAttributes.ofFields? looseChoice?)).bind
        fun attrs => (children? entries).bind
          fun items => (items.mapM decode?).map fun children => ⟨attrs, children⟩ := by
  rw [decode?]
  refine bind_congr fun attrs => ?_
  split
  · next hnone =>
    rw [hnone]
    rfl
  · next items hitems =>
    rw [hitems, List.mapM_subtype (g := decode?) (fun _ _ => rfl), List.unattach_attach, Option.bind_some,
      Option.map_eq_bind]
    rfl

theorem decode?_encode {n : SceneNode} (h : n.All NodeAttributes.Fits) : decode? n.encode = some n := by
  induction h with
  | @mk attrs children own below ih =>
      have hmap : (children.map encode).mapM decode? = some children := list?_map encode ih
      rw [encode_eq, decode?_object, declared?_slots, Option.bind_some,
        NodeAttributes.ofFields?_encode reads_looseChoice own, Option.bind_some, children?_slots,
        Option.bind_some, hmap]
      rfl

theorem isPlain_encode {n : SceneNode} (h : n.All NodeAttributes.Fits) : n.encode.IsPlain := by
  induction h with
  | @mk attrs children own below ih =>
      rw [encode_eq, isPlain_filled]
      intro slot hslot
      rcases List.mem_append.1 hslot with hslot | hslot
      · exact NodeAttributes.isPlain_slots own slot hslot
      · rw [List.mem_singleton.1 hslot]
        exact isPlain_listed.2 ih

mutual

def mapFloats : SceneNode → SceneNode
  | ⟨attrs, children⟩ => ⟨attrs.mapFloats g, mapFloatsAll children⟩

def mapFloatsAll : List SceneNode → List SceneNode
  | [] => []
  | node :: rest => mapFloats node :: mapFloatsAll rest

end

theorem mapFloatsAll_eq (children : List SceneNode) :
    mapFloatsAll g children = children.map (mapFloats g) := by
  induction children with
  | nil => rfl
  | cons child children ih => rw [mapFloatsAll, ih, List.map_cons]

theorem all_mapFloats {n : SceneNode} (h : n.All NodeAttributes.Fits) :
    (n.mapFloats g).All NodeAttributes.Fits := by
  induction h with
  | @mk attrs children own below ih =>
      rw [mapFloats, mapFloatsAll_eq]
      exact .mk (own.mapFloats g) (List.forall_mem_map.2 ih)

theorem encode_mapFloats {n : SceneNode} (h : n.All NodeAttributes.Fits) :
    (n.mapFloats g).encode = n.encode.mapFloats fun x => float (g x) := by
  induction h with
  | @mk attrs children own below ih =>
      rw [mapFloats, mapFloatsAll_eq, encode_eq, encode_eq, mapFloats_filled, slots, slots,
        attrs.slots_mapFloats, listed_map ih, Slots.mapFloats, Slots.mapFloats, List.map_append]
      rfl

theorem encode_inj {n m : SceneNode} (hn : n.All NodeAttributes.Fits) (hm : m.All NodeAttributes.Fits)
    (h : n.encode = m.encode) : n = m := by
  rw [← Option.some.injEq, ← decode?_encode hn, h, decode?_encode hm]

theorem mapFloats_eq_self_iff {n : SceneNode} (h : n.All NodeAttributes.Fits) :
    n.mapFloats g = n ↔ ∀ x ∈ n.encode.floats, g x = x := by
  have hjson := Json.mapFloats_eq_self_iff (f := fun x => float (g x)) n.encode
  rw [← encode_mapFloats g h] at hjson
  constructor
  · intro heq x hx
    have hfloat := hjson.1 (by rw [heq]) x hx
    injection hfloat with hnumber
    injection hnumber
  · intro hfix
    exact encode_inj (all_mapFloats g h) h (hjson.2 fun x hx => by rw [hfix x hx])

section Texts

variable {n : SceneNode} (h : n.All NodeAttributes.Fits) (hfinite : ∀ x ∈ n.encode.floats, x.isFinite)

include h hfinite

/-- The text of a node is decoded to the node with its doubles read back, unless one of them is out of range
or the text is nested too deep. -/
theorem decode?_text :
    (Json.parse? n.encode.render).bind decode? =
      if n.encode.isReadable maxLevels ∧ ∀ x ∈ n.encode.floats, (reread? x).isSome then
        some (n.mapFloats fun x => (reread? x).getD x)
      else none := by
  have hreadable : n.encode.reread.isReadable maxLevels ↔ _ := isReadable_mapFloats reread? maxLevels n.encode
  rw [parse?_render (isPlain_encode h) hfinite, Option.filter_some]
  by_cases hcond : n.encode.isReadable maxLevels ∧ ∀ x ∈ n.encode.floats, (reread? x).isSome
  · -- No double is missing, so that what is read is again the JSON value of a node.
    have hreread : n.encode.reread = (n.mapFloats fun x => (reread? x).getD x).encode := by
      rw [encode_mapFloats _ h]
      refine mapFloats_congr _ fun x hx => ?_
      obtain ⟨y, hy⟩ := Option.isSome_iff_exists.1 (hcond.2 x hx)
      rw [hy]
      rfl
    rw [if_pos (hreadable.2 hcond), if_pos hcond, Option.bind_some, hreread]
    exact decode?_encode (all_mapFloats _ h)
  · rw [if_neg (mt hreadable.1 hcond), if_neg hcond]
    rfl

theorem decode?_text_eq_self_iff :
    (Json.parse? n.encode.render).bind decode? = some n ↔
      n.encode.isReadable maxLevels ∧ ∀ x ∈ n.encode.floats, reread? x = some x := by
  have hself := mapFloats_eq_self_iff (fun x => (reread? x).getD x) h
  rw [decode?_text h hfinite]
  constructor
  · intro hdecoded
    split at hdecoded
    · next hcond =>
      refine ⟨hcond.1, fun x hx => ?_⟩
      obtain ⟨y, hy⟩ := Option.isSome_iff_exists.1 (hcond.2 x hx)
      have hfix := hself.1 (Option.some.inj hdecoded) x hx
      rw [hy] at hfix ⊢
      exact congrArg some hfix
    · cases hdecoded
  · rintro ⟨hlevels, hfix⟩
    rw [if_pos ⟨hlevels, fun x hx => by rw [hfix x hx]; rfl⟩]
    exact congrArg some (hself.2 fun x hx => by rw [hfix x hx]; rfl)

/-- A node is decoded from its JSON value as it was. From the text of that it is too, but for its doubles,
each of which is what its numeral is read as; the text is refused when a numeral is out of range or when it
is nested too deep. -/
theorem decodes_encoded :
    decode? n.encode = some n ∧
      (Json.parse? n.encode.render).bind decode? =
        (if n.encode.isReadable maxLevels ∧ ∀ x ∈ n.encode.floats, (reread? x).isSome then
          some (n.mapFloats fun x => (reread? x).getD x)
        else none) ∧
      ((Json.parse? n.encode.render).bind decode? = some n ↔
        n.encode.isReadable maxLevels ∧ ∀ x ∈ n.encode.floats, reread? x = some x) :=
  ⟨decode?_encode h, decode?_text h hfinite, decode?_text_eq_self_iff h hfinite⟩

end Texts

def styledFrame : SceneNode where
  attrs := {
    id := "1", name := "#Card", kind := .frame, visible := false
    fills := [{ kind := .image, scaleMode := some .unknown, imageRef := some "photo", opacity := some 0.5 }]
    effects := [{ kind := .dropShadow, radius := 4, color := some ⟨0, 0, 0, 0.25⟩, offset := some ⟨0, 2⟩ }]
    absoluteBox := some ⟨-12.5, 0, 320, 1e21⟩, clipsContent := true }
  children := [{
    attrs := {
      id := "2", name := "label", kind := .text, characters := some "a \"b\"\n", styleOverrides := [0, 7]
      styleOverrideTable := [("7", { italic := true, fontSize := some 12 }), ("1", {})]
      cornerRadii := some [], style := some { fills := [{ kind := .unknown, visible := false }] } } }]

/-- A rectangle at a place whose numeral is read as the next double. -/
def shiftedRectangle : SceneNode where
  attrs := {
    id := "1", name := "box", kind := .rectangle
    absoluteBox := some ⟨928.5714285714287, 0, 10, 10⟩ }

theorem fits_styledFrame : styledFrame.All NodeAttributes.Fits :=
  .mk ⟨by decide, by decide⟩ (List.forall_mem_singleton.2 (.mk ⟨by decide, by decide⟩ (by simp)))

theorem decodes_styledFrame :
    (styledFrame.All NodeAttributes.Fits ∧ ∀ x ∈ styledFrame.encode.floats, x.isFinite) ∧
      (Json.parse? styledFrame.encode.render).bind decode? = some styledFrame := by
  have hfinite : ∀ x ∈ styledFrame.encode.floats, x.isFinite := by decide
  exact ⟨⟨fits_styledFrame, hfinite⟩, (decodes_encoded fits_styledFrame hfinite).2.2.2
    ⟨by decide, by decide +kernel⟩⟩

theorem not_forall_decodes :
    ¬ ∀ n : SceneNode, n.All NodeAttributes.Fits → (∀ x ∈ n.encode.floats, x.isFinite) →
      (Json.parse? n.encode.render).bind decode? = some n := by
  intro hall
  have hfits : shiftedRectangle.All NodeAttributes.Fits := .mk ⟨by decide, by decide⟩ (by simp)
  have hfinite : ∀ x ∈ shiftedRectangle.encode.floats, x.isFinite := by decide
  have hfix := ((decode?_text_eq_self_iff hfits hfinite).1 (hall _ hfits hfinite)).2
  exact absurd hfix (by decide +kernel)

end SceneNode

end DesignCompiler

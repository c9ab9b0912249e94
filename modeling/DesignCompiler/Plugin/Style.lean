import DesignCompiler.Component.Context
import DesignCompiler.Component.Visit

namespace DesignCompiler

namespace Visit

variable (v : Visit)

def orderMiddle : Visit :=
  if 0 < v.place.order then v.setMiddle "zIndex" (.number (.ofNat v.place.order)) else v

/-- Vectors are exported with their rotation; other nodes are turned, if by more than a trace. -/
def rotate : Visit :=
  match v.bounds? with
  | some b =>
    if v.node.kind ≠ .vector && 0.01 < b.angle.abs then
      (v.setMiddle "transform" ("rotate(" ++ Decimal.text (-b.angle) ++ "deg)")).setMiddle
        "transformOrigin" "50% 50%"
    else v
  | none => v

def withWrappers (w : Placement.Wrappers) : Visit := { v with outer := w.outer, middle := w.middle }

def wrappers : Placement.Wrappers := ⟨v.outer, v.middle⟩

def alignHorizontally : Visit :=
  match v.bounds? with
  | some b => v.withWrappers (Placement.placeHorizontal v.node.constraints.horizontal b v.wrappers)
  | none => v

def alignVertically : Visit :=
  match v.bounds? with
  | some b => v.withWrappers (Placement.placeVertical v.node.constraints.vertical b v.wrappers)
  | none => v

end Visit

def NodeAttributes.isStack (attrs : NodeAttributes) : Bool :=
  attrs.layoutMode.any (· ≠ .none)

/-- The container of the items of a stack, pulled outwards by the margins of the items. -/
def stackContainer (mode : LayoutMode) (spacing : Float) : StyleMap :=
  match mode with
  | .horizontal =>
    [("display", "flex"), ("flexDirection", "row"), ("maxWidth", "100%"),
      ("marginTop", .number (-spacing)), ("marginLeft", .number (-spacing)),
      ("marginRight", .number (-spacing))]
  | .vertical =>
    [("display", "flex"), ("flexDirection", "column"), ("maxHeight", "100%"),
      ("marginTop", .number (-spacing))]
  | .none => []

def stackLimit (mode : LayoutMode) : StyleMap :=
  match mode with
  | .horizontal => [("maxWidth", "100%")]
  | .vertical => [("maxHeight", "100%")]
  | .none => []

def itemDeclarations (mode : LayoutMode) (spacing : Float) : List String :=
  let gap := px spacing
  match mode with
  | .horizontal =>
    ["margin-left: " ++ gap ++ ";", "margin-right: " ++ gap ++ ";", "margin-top: " ++ gap ++ ";",
      "margin-bottom: 0;"]
  | .vertical => ["margin-top: " ++ gap ++ ";", "margin-bottom: 0;"]
  | .none => []

def margins : List String := ["marginLeft", "marginRight", "marginTop", "marginBottom"]

/-- The items of a stack lose the margins that place them; the stack itself gives them a margin by a
rule of its own. -/
def Work.layOut (w : Work) : Work :=
  let w :=
    if w.visit.place.parent.any (·.attrs.isStack) then
      w.editVisit fun v => margins.foldl (fun v side => v.setMiddle side (.number 0)) v
    else w
  let attrs := w.visit.node.attrs
  let spacing := attrs.itemSpacing.getD 0
  match attrs.layoutMode with
  | none | some .none => w
  | some mode =>
    let (number, w) := w.allot
    let w := w.editVisit fun v =>
      { v with
        inner := v.inner.merge (stackContainer mode spacing)
        middle := v.middle.merge (stackLimit mode) }
    let w := w.editScope fun s =>
      s.addExtra (.allotted number " > * > *" (itemDeclarations mode spacing))
    w.editVisit fun v => v.addClass (.numbered number)

def visiblePaint? (paints : List Paint) : Option Paint := paints.getLast?.filter (·.visible)

def tileSize (fill : Paint) (image : Assets.Image) : StyleMap :=
  let scaled (edge : Nat) : String := px (fill.scalingFactor.getD 1 * .ofNat edge)
  match image.width, image.height with
  | some w, some h => [("backgroundSize", .text (scaled w ++ " " ++ scaled h))]
  | _, _ => []

def stretchOffset (fill : Paint) : StyleMap :=
  match fill.imageTransform with
  | some m => [("backgroundPosition", .text (percent (-100 * m.dx) ++ " " ++ percent (-100 * m.dy)))]
  | none => []

def imageFit (fill : Paint) (image : Assets.Image) : StyleMap :=
  match fill.scaleMode.getD .fill with
  | .fill => [("backgroundSize", "cover")]
  | .fit => [("backgroundSize", "contain")]
  | .tile =>
    StyleMap.merge [("backgroundPosition", "left top"), ("backgroundRepeat", "repeat")]
      (tileSize fill image)
  | .stretch => StyleMap.merge [("backgroundSize", "100% 100%")] (stretchOffset fill)
  | .unknown => []

/-- The styles of a picture that fills a box; one that was not resolved is left out. -/
def imageFill (ctx : Context) (fill : Paint) : StyleMap :=
  match fill.imageRef.bind fun ref => ctx.resources.images.lookup ref with
  | none => []
  | some image =>
    StyleMap.merge
      [("backgroundImage", .text ("url(" ++ image.url ++ ")")),
        ("backgroundPosition", "center center"), ("backgroundRepeat", "no-repeat")]
      (imageFit fill image)

def fillStyles (ctx : Context) (fill : Paint) : StyleMap :=
  match fill.kind with
  | .solid =>
    StyleMap.set? "opacity" (fill.opacity.map .number)
      [("backgroundColor", .text (fill.color.getD .black).css)]
  | .image => imageFill ctx fill
  | .gradientLinear => [("background", .text fill.linearGradient)]
  | .gradientRadial => [("background", .text fill.radialGradient)]
  | _ => []

def addEffect (style : StyleMap) (e : Effect) : StyleMap :=
  match e.kind with
  | .dropShadow => style.append "boxShadow" e.dropShadow
  | .innerShadow => style.append "boxShadow" e.innerShadow
  | .layerBlur => style.append "filter" ("blur(" ++ px e.radius ++ ")")
  | _ => style

def borderStyles (attrs : NodeAttributes) : StyleMap :=
  match visiblePaint? attrs.strokes with
  | some stroke =>
    if stroke.kind = .solid then
      [("border", .text
        (px (attrs.strokeWeight.getD 1) ++ " solid " ++ (stroke.color.getD .black).css))]
    else []
  | none => []

/-- The radii of the corners, of which there have to be four with a positive sum. -/
def cornerStyles (attrs : NodeAttributes) : StyleMap :=
  match attrs.cornerRadii with
  | some radii =>
    if radii.length = 4 && 0 < radii.foldl (· + ·) 0 then
      [("borderRadius", .text (" ".intercalate (radii.map px)))]
    else []
  | none => []

def paintRectangle (ctx : Context) (attrs : NodeAttributes) (style : StyleMap) : StyleMap :=
  let filled := style.merge (((visiblePaint? attrs.fills).map (fillStyles ctx)).getD [])
  (((attrs.effects.filter (·.visible)).foldl addEffect filled).merge (borderStyles attrs)).merge
    (cornerStyles attrs)

def paintFrame (attrs : NodeAttributes) (style : StyleMap) : StyleMap :=
  let colored := style.set? "backgroundColor" (attrs.backgroundColor.map fun c => .text c.css)
  if attrs.clipsContent then colored.set "overflow" "hidden" else colored

def Visit.paint (ctx : Context) (v : Visit) : Visit :=
  if v.node.kind.isFrameLike then { v with middle := paintFrame v.node.attrs v.middle }
  else if v.node.kind = .rectangle then
    { v with middle := paintRectangle ctx v.node.attrs v.middle }
  else v

def maskStyles (stem url position size : String) : StyleMap :=
  [(stem ++ "Image", .text ("url(" ++ url ++ ")")), (stem ++ "Position", .text position),
    (stem ++ "Size", .text size), (stem ++ "Repeat", "no-repeat")]

def Visit.composeMask (ctx : Context) (v : Visit) : Visit :=
  let mask? := v.node.mask.bind fun i => ctx.forest.get? i
  match mask?.bind fun m => (ctx.resources.masks.lookup m.attrs.id).map fun url => (m, url) with
  | none => v
  | some (mask, url) =>
    let maskBox := mask.absoluteBox
    let nodeBox := v.node.absoluteBox
    let position := px (maskBox.x - nodeBox.x) ++ " " ++ px (maskBox.y - nodeBox.y)
    let size := px maskBox.width ++ " " ++ px maskBox.height
    { v with
      middle := (v.middle.merge (maskStyles "mask" url position size)).merge
        (maskStyles "WebkitMask" url position size) }

def StylePlugin.apply (ctx : Context) : StylePlugin → Work → Work
  | .middleOrder, w => w.editVisit Visit.orderMiddle
  | .transformation, w => w.editVisit Visit.rotate
  | .horizontalAlign, w => w.editVisit Visit.alignHorizontally
  | .verticalAlign, w => w.editVisit Visit.alignVertically
  | .autoLayout, w => w.layOut
  | .frameStyles, w => w.editVisit (Visit.paint ctx)
  | .maskCompositing, w => w.editVisit (Visit.composeMask ctx)

end DesignCompiler

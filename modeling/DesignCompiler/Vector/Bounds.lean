import DesignCompiler.Vector.Effect
import DesignCompiler.Vector.Image
import DesignCompiler.Vector.Marker

namespace DesignCompiler.Vector

section Parts

variable (measure : Measuring)

def group (s : Surroundings) (t : Transform) (n : Node) (parts : Option Bounds) : Option Bounds := do
  let b ← parts
  let object := some b.here
  let links := s.named.length + 1
  if !clipHolds measure s object links s.opened n then none
  if !s.inClip && !(maskHolds measure s object links s.opened n && filterHolds s object n) then none
  return b.moved t

def children (s : Surroundings) (page : Transform) (n : Node) : Option Bounds :=
  Bounds.unionAll (n.children.filterMap (measure s page))

def markers (s : Surroundings) (page : Transform) (n : Node) (o : Outline) : List Bounds :=
  let mayHave := ["line", "path", "polyline", "polygon"].contains n.kind
  if s.inClip || !mayHave || (n.inherited? "visibility").getD "visible" != "visible" then []
  else
    [MarkerPlace.start, .middle, .stop].flatMap fun place =>
      match s.target? (n.inherited? place.property) with
      | some (id, marker) =>
        if marker.kind = "marker" then
          (marker.markerTransforms n s.view place o).filterMap fun t =>
            (children measure { s with opened := id :: s.opened } (page.after t) marker).map (·.moved t)
        else []
      | none => []

def shape (s : Surroundings) (page : Transform) (n : Node) : Option Bounds := do
  let outline ← n.outline? s.view
  let here ← outline.extent?
  let there ← if page.hasSkew then Outline.extent? (outline.map (Stroke.map page.apply)) else here.map? page
  Bounds.unionAll (⟨here, there⟩ :: markers measure s page n outline)

def image (s : Surroundings) (page : Transform) (n : Node) : Option Bounds := do
  let size ← n.imageSize? s.drawing?
  let room ← n.imageRoom? s.view size
  let t := n.fit.image size room
  let whole ← Extent.ofSize? 0 0 size.x size.y
  return ⟨← whole.map? t, ← whole.map? (page.after t)⟩

def Surroundings.room (s : Surroundings) (n : Node) : Float32 × Float32 :=
  let width := n.pixels s.view "width" .across .full
  let height := n.pixels s.view "height" .down .full
  if n.kind = "svg" then (s.usedWidth.getD width, s.usedHeight.getD height) else (width, height)

def Surroundings.placement (s : Surroundings) (n shown : Node) : Transform :=
  let place := Transform.moving (n.across s.view "x") (n.down s.view "y")
  let (width, height) := s.room n
  match shown.viewBox? with
  | some box =>
    if isPositive width && isPositive height then place.after (shown.fit.transform box width height)
    else place
  | none => place

def Surroundings.enter (s : Surroundings) (n : Node) : Surroundings :=
  let (width, height) := s.room n
  let box := n.viewBox?.or
    ((Extent.ofSize? (n.across s.view "x") (n.down s.view "y") width height).filter Extent.isSolid)
  match box with
  | some box => { s with view := ⟨box.width, box.height⟩ }
  | none => s

def inner (s : Surroundings) (page : Transform) (n : Node) : Option Bounds := do
  let t := s.placement n n
  return (← children measure (s.enter n) (page.after t) n).moved t

def used (s : Surroundings) (page : Transform) (n : Node) : Option Bounds := do
  let shown ← n.children.head?
  if shown.kind = "symbol" then
    if s.inClip then none
    let t := (s.placement n shown).after (shown.transform s.view)
    group measure s t shown (children measure s (page.after t) shown)
  else
    let t := Transform.moving (n.across s.view "x") (n.down s.view "y")
    let size? (name : String) (direction : Direction) : Option Float32 :=
      (n.property? name).map fun _ => n.pixels s.view name direction .full
    let s :=
      if shown.kind = "svg" then
        { s with usedWidth := size? "width" .across, usedHeight := size? "height" .down }
      else s
    return (← measure s (page.after t) shown).moved t

def parts (s : Surroundings) (page : Transform) (n : Node) : Option Bounds :=
  match n.kind with
  | "use" => used measure s page n
  | "switch" =>
    if s.inClip then none else (n.children.find? Node.isChosen).bind (measure s page)
  | "g" => if s.inClip then none else children measure s page n
  | "svg" =>
    if s.inClip then none
    else if n.isRoot then children measure s page n
    else inner measure s page n
  | "image" => if s.inClip then none else image s page n
  | _ => shape measure s page n

end Parts

/-- The bounds of a node that is drawn; `page` leads from the coordinates around it to those of the drawing. Elements
that are hidden, or whose clip, mask or filter lacks what it needs, do not count; colors, strokes and the reach of
clips make no difference. -/
def measure : (fuel : Nat) → Measuring
  | 0, _, _, _ => none
  | fuel + 1, s, page, n =>
    if !n.isShown then none
    else
      let t := n.transform s.view
      group (measure fuel) s t n (parts (measure fuel) s (page.after t) n)

def Node.bounds? (root : Node) (drawing? : String → Option Spot) (view : View) : Option Bounds :=
  let named := root.named
  measure ((named.length + 1) * (maxLevels + 2)) { named, drawing?, view } .identity root

end DesignCompiler.Vector

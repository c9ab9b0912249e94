import DesignCompiler.Vector.Bounds
import DesignCompiler.Xml.Document

namespace DesignCompiler.Vector

def defaultEdge : Float := 100

/-- An edge of a drawing in pixels, along an edge of the view box if there is one. -/
def Node.edge (n : Node) (name : String) (viewEdge : Option Float32) : Float32 :=
  let l := (n.length? name).getD .full
  match l.absolute? n.letters, viewEdge with
  | some pixels, _ => pixels
  | none, some edge => edge * (l.number / 100).toFloat32
  | none, none => (l.number / 100 * defaultEdge).toFloat32

def Node.isOpen (n : Node) (name : String) : Bool := ((n.length? name).getD .full).unit = .percent

/-- The size of the drawing of a root; `drawing?` gives that of an image that is a drawing. -/
def Node.size? (n : Node) (drawing? : String → Option Spot) : Option Spot := do
  let box := n.viewBox?
  let width := n.edge "width" (box.map Extent.width)
  let height := n.edge "height" (box.map Extent.height)
  if !isPositive width || !isPositive height then none
  if box.isNone && (n.isOpen "width" || n.isOpen "height") then
    match n.bounds? drawing? ⟨width, height⟩ with
    | some b =>
      if isPositive b.page.right && isPositive b.page.bottom then
        return ⟨b.page.right, b.page.bottom⟩
      else return ⟨width, height⟩
    | none => return ⟨width, height⟩
  else return ⟨width, height⟩

/-- The size of the drawing that a text is. Images in it have no size. -/
def sizeAsImage? (markup : String) : Option Spot := do
  let node ← (Xml.parse markup).toOption.bind Node.ofXml?
  node.size? fun _ => none

def size? (e : Xml.Element) : Option Spot := (Node.ofXml? e).bind (·.size? sizeAsImage?)

end DesignCompiler.Vector

import DesignCompiler.Text.Basic
import DesignCompiler.Vector.ViewBox

namespace DesignCompiler.Vector

structure Bounds where
  here : Extent
  page : Extent

def Bounds.union (a b : Bounds) : Bounds := ⟨a.here.union b.here, a.page.union b.page⟩

def Bounds.unionAll (bs : List Bounds) : Option Bounds :=
  match bs with
  | [] => none
  | b :: rest => some (rest.foldl union b)

def Bounds.moved (b : Bounds) (t : Transform) : Bounds := { b with here := (b.here.map? t).getD b.here }

structure Surroundings where
  named : List (String × Node)
  drawing? : String → Option Spot
  view : View
  usedWidth : Option Float32 := none
  usedHeight : Option Float32 := none
  inClip : Bool := false
  /-- The clips, masks and markers that the part belongs to. -/
  opened : List String := []

namespace Surroundings

/-- What a link leads to; a link to something that the part belongs to does not count. -/
def target? (s : Surroundings) (link : Option String) : Option (String × Node) := do
  let id ← linkFunction? (← link)
  if s.opened.contains id then none
  return (id, ← s.named.lookup id)

end Surroundings

def isEnglish (language : String) : Bool :=
  (Text.trim language).toList.takeWhile (· != '-') = "en".toList

/-- Whether the conditions of an element hold: no extensions, and English among its languages. -/
def Node.isChosen (n : Node) : Bool :=
  (n.property? "requiredExtensions").isNone
    && ((n.property? "systemLanguage").all fun languages => (languages.splitOn ",").any isEnglish)

/-- The written transform of a node; one that cannot be read does not count. -/
def Node.writtenTransform (n : Node) : Transform :=
  ((n.property? "transform").bind Transform.parse?).getD .identity

def Node.isShown (n : Node) : Bool :=
  n.property? "display" != some "none" && n.writtenTransform.isUsable && n.isChosen

def Node.transform (n : Node) (view : View) : Transform :=
  let t := n.writtenTransform
  let t := if t.isUsable then t else .identity
  match (n.property? "transform-origin").bind origin? with
  | some (x, y) => t.about (x.pixels .across view n.letters) (y.pixels .down view n.letters)
  | none => t

abbrev Measuring := Surroundings → Transform → Node → Option Bounds

end DesignCompiler.Vector

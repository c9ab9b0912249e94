import DesignCompiler.Vector.Attributes

namespace DesignCompiler.Vector

structure Node where
  kind : String
  properties : Properties
  around : List Properties
  children : List Node

namespace Node

def property? (n : Node) (name : String) : Option String := n.properties.value? name

def inherited? (n : Node) (name : String) : Option String :=
  (n.properties :: n.around).findSome? (·.value? name)

def letters (n : Node) : Float32 := lettersOf (n.properties :: n.around)

def isRoot (n : Node) : Bool := n.around.isEmpty

end Node

def knownElements : List String :=
  ["a", "circle", "clipPath", "defs", "ellipse", "feBlend", "feColorMatrix", "feComponentTransfer",
    "feComposite", "feConvolveMatrix", "feDiffuseLighting", "feDisplacementMap", "feDistantLight",
    "feDropShadow", "feFlood", "feFuncA", "feFuncB", "feFuncG", "feFuncR", "feGaussianBlur", "feImage",
    "feMerge", "feMergeNode", "feMorphology", "feOffset", "fePointLight", "feSpecularLighting",
    "feSpotLight", "feTile", "feTurbulence", "filter", "g", "image", "line", "linearGradient", "marker",
    "mask", "path", "pattern", "polygon", "polyline", "radialGradient", "rect", "stop", "style", "svg",
    "switch", "symbol", "text", "textPath", "tref", "tspan", "use"]

def inDrawing (space : Option String) : Bool := space = none || space = some svgSpace

/-- The kind of an element, if it is known; a link is a group. -/
def kind? (e : Xml.Element) : Option String :=
  if inDrawing e.space && knownElements.contains e.name then
    some (if e.name = "a" then "g" else e.name)
  else none

def sheetTexts (elements : List Xml.Position) : List String :=
  elements.filterMap fun p =>
    let type := p.attribute? none "type"
    if p.element.name = "style" && [none, some "", some "text/css"].contains type then
      match p.element.children with
      | .text s :: _ => some s
      | _ => none
    else none

structure Sources where
  rules : List StyleSheet.Rule
  /-- The elements with an id; of several with one id the first counts. -/
  named : List (String × Xml.Position)

def Sources.ofRoot (e : Xml.Element) : Sources :=
  let elements := Xml.Position.within .root e
  { rules := StyleSheet.ofTexts (sheetTexts elements)
    named := elements.filterMap fun p => (p.attribute? none "id").map fun id => (id, p) }

def Sources.target? (s : Sources) (p : Xml.Position) : Option Xml.Position := do
  let link ← (p.attribute? (some linkSpace) "href").or (p.attribute? none "href")
  s.named.lookup (← link? link)

/-- What a use draws. A use does not draw itself, the use that it is drawn for, or an element with a use of
itself or of that element inside. -/
def Sources.used? (s : Sources) (p : Xml.Position) (origin : Option (List Nat)) :
    Option Xml.Position := do
  let target ← s.target? p
  if target.path = p.path || some target.path = origin then none
  let _ ← kind? target.element
  let circular := target.descendants.any fun q =>
    q.element.space = some svgSpace && q.element.name = "use" &&
      (s.target? q).any fun r => r.path = p.path || r.path = target.path
  if circular then none else some target

def maxLevels : Nat := 1024

def maxNodes : Nat := 1000000

abbrev Growing := StateT Nat Option

def Growing.count : Growing Unit := do
  if maxNodes < (← get) then failure
  modify (· + 1)

structure Setting where
  origin : Option (List Nat) := none
  /-- Whether this is drawn for a use, where ids do not count. -/
  copied : Bool := false
  around : List Properties := []

def grow (s : Sources) : (levels : Nat) → Setting → Xml.Content Xml.Position → Growing (Option Node)
  | 0, _, _ => failure
  | _, _, .text _ | _, _, .gap => return none
  | levels + 1, setting, .element p => do
    let some kind := kind? p.element | return none
    if kind = "style" then return none
    Growing.count
    let properties := Properties.ofElement s.rules setting.around p
    let properties := if setting.copied then properties.filter (·.name != "id") else properties
    let around := properties :: setting.around
    let children ←
      if kind = "text" then pure []
      else if kind = "use" then
        match s.used? p setting.origin, levels with
        | none, _ => pure []
        | some _, 0 => failure
        | some target, levels + 1 =>
          let child ← grow s levels ⟨some p.path, true, around⟩ (.element target)
          pure child.toList
      else
        return some ⟨kind, properties, setting.around,
          (← p.children.mapM fun c => grow s levels { setting with around } c).filterMap id⟩
    return some ⟨kind, properties, setting.around, children⟩

def Node.ofXml? (e : Xml.Element) : Option Node := do
  let (node, _) ← (grow (.ofRoot e) (maxLevels + 1) {} (.element (.root e))).run 1
  let node ← node
  if node.kind = "svg" then some node else none

/-- Nodes with an id, as they are found by it: the last one with an id counts. -/
def Node.named (n : Node) : List (String × Node) := (go n).reverse
where
  go : Node → List (String × Node)
    | ⟨kind, properties, around, children⟩ =>
      ((properties.value? "id").map fun id => (id, ⟨kind, properties, around, children⟩)).toList
        ++ goAll children
  goAll : List Node → List (String × Node)
    | [] => []
    | n :: rest => go n ++ goAll rest

end DesignCompiler.Vector

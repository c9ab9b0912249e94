import DesignCompiler.StyleSheet.Rule
import DesignCompiler.Vector.Length

namespace DesignCompiler.Vector

open StyleSheet

def svgSpace : String := "http://www.w3.org/2000/svg"

def linkSpace : String := "http://www.w3.org/1999/xlink"

structure Property where
  name : String
  value : String
  important : Bool := false
  deriving Repr

abbrev Properties := List Property

/-- The value of a property; of several the first one counts. -/
def Properties.value? (ps : Properties) (name : String) : Option String :=
  (ps.find? (·.name = name)).map (·.value)

def inheritedDefaults : List (String × String) :=
  [("font-size", "medium"), ("visibility", "visible"), ("stroke-width", "1"), ("marker-start", "none"),
    ("marker-mid", "none"), ("marker-end", "none")]

def ownDefaults : List (String × Option String) :=
  [("display", some "inline"), ("opacity", some "1"), ("overflow", some "visible"),
    ("clip-path", some "none"), ("mask", some "none"), ("filter", some "none"), ("transform", none),
    ("transform-origin", none)]

def isStyled (name : String) : Bool :=
  (inheritedDefaults.lookup name).isSome || (ownDefaults.lookup name).isSome

/-- What the word `inherit` stands for, from the properties of the elements around, nearest first. An
inherited property comes from the nearest element that has it, another one from the parent alone. -/
def inheritedValue? (around : List Properties) (name : String) : Option Property :=
  let from? (ps : Properties) := ps.find? (·.name = name)
  match inheritedDefaults.lookup name with
  | some default => some ((around.findSome? from?).getD { name, value := default })
  | none =>
    match around.head?.bind from? with
    | some p => some p
    | none => ((ownDefaults.lookup name).join).map fun value => { name, value }

def Property.given? (around : List Properties) (p : Property) : Option Property :=
  if p.value = "inherit" && isStyled p.name then inheritedValue? around p.name else some p

namespace Properties

def ofAttributes (around : List Properties) (attributes : List Xml.Attribute) : Properties :=
  attributes.filterMap fun a =>
    if [none, some svgSpace, some linkSpace, some Xml.xmlSpace].contains a.space then
      Property.given? around { name := a.name, value := a.value }
    else none

def replaceFirst (ps : Properties) (p : Property) : Properties :=
  match ps with
  | [] => [p]
  | q :: rest =>
    if q.name = p.name then (if q.important then q else p) :: rest else q :: replaceFirst rest p

def style (around : List Properties) (ps : Properties) (p : Property) : Properties :=
  if isStyled p.name then
    match Property.given? around p with
    | some q => ps.replaceFirst q
    | none => ps
  else ps

end Properties

def fontWords : List String :=
  ["normal", "small-caps", "italic", "oblique", "bold", "bolder", "lighter", "100", "200", "300", "400",
    "500", "600", "700", "800", "900", "ultra-condensed", "extra-condensed", "condensed",
    "semi-condensed", "semi-expanded", "expanded", "extra-expanded", "ultra-expanded"]

def skipFontWords : (n : Nat) → List Char → List Char
  | 0, s => s
  | n + 1, s =>
    match Scan.word.run s with
    | some (word, rest) =>
      if fontWords.contains word then skipFontWords n (Xml.skipSpaces rest) else s
    | none => s

/-- The size of letters in the description of a font, which ends with a family. -/
def fontSize? (font : String) : Option String := do
  let s := skipFontWords 4 (Xml.skipSpaces font.toList)
  let rest ← match Scan.length.run s with
    | some (_, rest) => some rest
    | none => do
      let (word, rest) ← Scan.word.run s
      if (namedLetters.lookup word).isSome then some rest else none
  let size := String.ofList (s.take (s.length - rest.length))
  let rest := Xml.skipSpaces rest
  let family ← if rest.head? = some '/' then
      (Scan.length.run (Xml.skipSpaces (rest.drop 1))).map fun (_, rest) => Xml.skipSpaces rest
    else some rest
  if family.isEmpty then none else some size

def styled (d : Declaration) : List Property :=
  let property (name value : String) : Property := ⟨name, value, d.important⟩
  match d.property with
  | "marker" => ["marker-start", "marker-mid", "marker-end"].map fun name => property name d.value
  | "font" => ((fontSize? d.value).map (property "font-size")).toList
  | name => [property name d.value]

/-- The properties of an element inside others: attributes first, then rules, then its own style. -/
def Properties.ofElement (rules : List StyleSheet.Rule) (around : List Properties) (p : Xml.Position) :
    Properties :=
  let matching := rules.filter fun r => r.selector.selects p
  let own := ((p.attribute? none "style").map declarations).getD []
  ((matching.flatMap (·.declarations) ++ own).flatMap styled).foldl (style around)
    (ofAttributes around p.element.attributes)

def lettersOf (properties : List Properties) : Float32 :=
  properties.foldr (fun ps outer => ((ps.value? "font-size").map (lettersWithin outer)).getD outer) 12

end DesignCompiler.Vector

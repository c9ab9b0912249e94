import DesignCompiler.Table
import DesignCompiler.Xml.Document

namespace DesignCompiler.Markup

inductive AttrValue where
  | literal (value : String)
  | expression (code : String)
  deriving Repr, DecidableEq

inductive Child (ε : Type) where
  | element (e : ε)
  | text (s : String)
  | expression (code : String)
  deriving Repr, BEq

structure Element where
  tag : String
  attributes : Table AttrValue := []
  spreads : List String := []
  children : List (Child Element) := []
  deriving Repr, BEq, Inhabited

def xlinkSpace : String := "http://www.w3.org/1999/xlink"

/-- The name of an attribute, with a mark for the two namespaces that are told apart. -/
def attributeKey (a : Xml.Attribute) : String :=
  if a.space = some xlinkSpace then "xlink:" ++ a.name
  else if a.space = some Xml.xmlSpace then "xml:" ++ a.name
  else a.name

mutual

def Element.ofXml : Xml.Element → Element
  | ⟨_, name, attributes, children⟩ =>
    { tag := name
      attributes := Table.ofList (attributes.map fun a => (attributeKey a, .literal a.value))
      children := childrenOfXml children }

def childrenOfXml : List (Xml.Content Xml.Element) → List (Child Element)
  | [] => []
  | .element e :: rest => .element (Element.ofXml e) :: childrenOfXml rest
  | .text s :: rest => .text s :: childrenOfXml rest
  | .gap :: rest => childrenOfXml rest

end

namespace Element

def parse (raw : String) : Except Xml.Failure Element := (Xml.parse raw).map ofXml

def attribute? (name : String) (e : Element) : Option String :=
  match e.attributes.lookup name with
  | some (.literal value) => some value
  | _ => none

def id? (e : Element) : Option String := e.attribute? "id"

def elements (e : Element) : List Element :=
  e.children.filterMap fun
    | .element c => some c
    | _ => none

def setAttribute (name : String) (value : AttrValue) (e : Element) : Element :=
  { e with attributes := Table.put name value e.attributes }

mutual

def find? (id : String) : Element → Option Element
  | ⟨tag, attributes, spreads, children⟩ =>
    if Element.id? ⟨tag, attributes, spreads, []⟩ = some id then
      some ⟨tag, attributes, spreads, children⟩
    else findIn? id children

def findIn? (id : String) : List (Child Element) → Option Element
  | [] => none
  | .element e :: rest => (find? id e).or (findIn? id rest)
  | _ :: rest => findIn? id rest

end

mutual

def update? (id : String) (f : Element → Element) : Element → Option Element
  | ⟨tag, attributes, spreads, children⟩ =>
    if Element.id? ⟨tag, attributes, spreads, []⟩ = some id then
      some (f ⟨tag, attributes, spreads, children⟩)
    else (updateIn? id f children).map fun children => ⟨tag, attributes, spreads, children⟩

def updateIn? (id : String) (f : Element → Element) :
    List (Child Element) → Option (List (Child Element))
  | [] => none
  | .element e :: rest =>
    match update? id f e with
    | some e => some (.element e :: rest)
    | none => (updateIn? id f rest).map (.element e :: ·)
  | child :: rest => (updateIn? id f rest).map (child :: ·)

end

end Element

end DesignCompiler.Markup

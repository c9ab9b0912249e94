import DesignCompiler.Xml.Tree

namespace DesignCompiler.Xml

structure Position where
  element : Element
  path : List Nat
  previous : Option Position
  parent : Option Position

namespace Position

def root (e : Element) : Position := ⟨e, [], none, none⟩

def childrenFrom (p : Position) (index : Nat) (previous : Option Position) :
    List (Content Element) → List (Content Position)
  | [] => []
  | .element e :: rest =>
    let child : Position := ⟨e, index :: p.path, previous, some p⟩
    .element child :: childrenFrom p (index + 1) (some child) rest
  | .text s :: rest => .text s :: childrenFrom p (index + 1) previous rest
  | .gap :: rest => .gap :: childrenFrom p (index + 1) previous rest

def children (p : Position) : List (Content Position) := p.childrenFrom 0 none p.element.children

mutual

def within (place : Element → Position) : Element → List Position
  | ⟨space, name, attributes, children⟩ =>
    let p := place ⟨space, name, attributes, children⟩
    p :: withinChildren p 0 none children

def withinChildren (p : Position) (index : Nat) (previous : Option Position) :
    List (Content Element) → List Position
  | [] => []
  | .element e :: rest =>
    let place (e : Element) : Position := ⟨e, index :: p.path, previous, some p⟩
    within place e ++ withinChildren p (index + 1) (some (place e)) rest
  | _ :: rest => withinChildren p (index + 1) previous rest

end

def descendants (p : Position) : List Position := withinChildren p 0 none p.element.children

def attribute? (p : Position) (space : Option String) (name : String) : Option String :=
  (p.element.attributes.find? fun a => a.space = space ∧ a.name = name).map (·.value)

end Position

end DesignCompiler.Xml

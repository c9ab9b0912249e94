import DesignCompiler.Xml.Reference
import DesignCompiler.Xml.Token

namespace DesignCompiler.Xml

structure Attribute where
  space : Option String
  name : String
  value : String
  deriving Repr, BEq, Inhabited

inductive Content (ε : Type) where
  | element (e : ε)
  | text (s : String)
  | gap
  deriving Repr, BEq

structure Element where
  space : Option String
  name : String
  attributes : List Attribute
  children : List (Content Element)
  deriving Repr, BEq, Inhabited

inductive Failure where
  | malformed
  /-- The root, which an entity has closed already, is closed again. -/
  | closedTwice
  deriving Repr, DecidableEq

def orMalformed {α : Type} : Option α → Except Failure α
  | some a => .ok a
  | none => .error .malformed

/-- The name of an entity and the text it stands for; the first declaration counts. -/
abbrev Entities := List (List Char × List Char)

def xmlSpace : String := "http://www.w3.org/XML/1998/namespace"

def xmlnsSpace : String := "http://www.w3.org/2000/xmlns/"

/-- An element whose closing tag has not been met; the last child comes first. -/
structure Frame where
  name : QName
  scope : List (List Char × String)
  space : Option String
  attributes : List Attribute
  children : List (Content Element)

structure Attributes where
  bound : List (List Char × String) := []
  others : List (QName × String) := []

structure Build where
  frames : List Frame := []
  root : Option Element := none
  /-- Attributes of unfinished tags, which go to the next tag. -/
  pending : Attributes := {}
  inText : Bool := false
  tagMet : Bool := false
  references : Nat := 0

def maxDepth : Nat := 10

def maxReferences : Nat := 255

/-- Counts a reference to an entity; there is no limit outside of entities. -/
def countReference? (inEntity : Bool) (references : Nat) : Option Nat :=
  if !inEntity then some references
  else if references = maxReferences then none
  else some (references + 1)

def pushValueChar (c : Char) (next : Option Char) (done : List Char) : List Char :=
  if c = '\r' && next = some '\n' then done
  else if c = '\n' || c = '\t' || c = '\r' then ' ' :: done
  else c :: done

def nextPlain : List Piece → Option Char
  | .plain c :: _ => some c
  | .reference _ :: _ | .malformed :: _ => some '&'
  | [] => none

/-- Reads the pieces of an attribute value; `enter` reads the value of an entity. Inside an entity a
reference to `<` is refused. -/
def readValue? (entities : Entities) (inEntity : Bool)
    (enter : List Piece → List Char → Nat → Option (List Char × Nat)) :
    List Piece → (done : List Char) → (references : Nat) → Option (List Char × Nat)
  | [], done, references => some (done, references)
  | .plain c :: rest, done, references =>
    readValue? entities inEntity enter rest (pushValueChar c (nextPlain rest) done) references
  | .reference (.char c) :: rest, done, references =>
    if !inEntity then readValue? entities inEntity enter rest (c :: done) references
    else if c = '<' then none
    else readValue? entities inEntity enter rest (pushValueChar c none done) references
  | .malformed :: _, _, _ => none
  | .reference (.entity name) :: rest, done, references => do
    let value ← entities.lookup name
    let references ← countReference? inEntity references
    let (done, references) ← enter (pieces value) done references
    readValue? entities inEntity enter rest done (if inEntity then references else 0)

def valueWithin? (entities : Entities) :
    (budget : Nat) → List Piece → (done : List Char) → (references : Nat) →
      Option (List Char × Nat)
  | 0 => readValue? entities true fun _ _ _ => none
  | budget + 1 =>
    readValue? entities (budget + 1 != maxDepth) fun pieces done references =>
      valueWithin? entities budget pieces done references

inductive Declared where
  | binding (mark : List Char) (space : String)
  | nothing
  | plain

/-- What an attribute declares. The namespaces of `xml` and `xmlns` have fixed marks, and a mark is
bound once in an element. -/
def declared? (bound : List (List Char × String)) (name : QName) (value : String) :
    Option Declared :=
  let xml := "xml".toList
  let xmlns := "xmlns".toList
  if name.space = xmlns then
    if value = xmlnsSpace then none
    else if (name.part = xml) != (value = xmlSpace) then none
    else if bound.any fun (mark, _) => mark = name.part then none
    else if value = xmlSpace then some .nothing
    else some (.binding name.part value)
  else if name.part = xmlns then
    if value = xmlSpace || value = xmlnsSpace then none else some (.binding [] value)
  else some .plain

def readAttribute? (entities : Entities) (budget : Nat) (acc : Attributes × Nat)
    (raw : RawAttribute) : Option (Attributes × Nat) := do
  let (chars, references) ← valueWithin? entities budget (pieces raw.value) [] acc.2
  let value := String.ofList chars.reverse
  let acc := acc.1
  match ← declared? acc.bound raw.name value with
  | .binding mark space => return ({ acc with bound := acc.bound ++ [(mark, space)] }, references)
  | .nothing => return (acc, references)
  | .plain => return ({ acc with others := acc.others ++ [(raw.name, value)] }, references)

/-- The namespace of a mark, which has to be bound unless it is empty. -/
def resolve? (scope : List (List Char × String)) (mark : List Char) : Option (Option String) :=
  match scope.lookup mark with
  | some space => some (some space)
  | none => if mark.isEmpty then some none else none

def resolveAttribute? (scope : List (List Char × String)) (done : List Attribute)
    (attr : QName × String) : Option (List Attribute) := do
  let (name, value) := attr
  let space ←
    if name.space = "xml".toList then some (some xmlSpace)
    else if name.space.isEmpty then some none
    else resolve? scope name.space
  let part := String.ofList name.part
  if done.any fun a => a.space = space && a.name = part then none
  else some (done ++ [⟨space, part, value⟩])

namespace Build

def scope (b : Build) : List (List Char × String) :=
  match b.frames with
  | f :: _ => f.scope
  | [] => []

/-- Adds a child to the innermost element; a whole element outside of all is the root. -/
def addChild (b : Build) (child : Content Element) : Build :=
  match b.frames, child with
  | f :: rest, _ => { b with frames := { f with children := child :: f.children } :: rest }
  | [], .element e => { b with root := some (b.root.getD e) }
  | [], .text _ | [], .gap => b

def addText (b : Build) (s : String) : Build :=
  match b.inText, b.frames with
  | true, f :: rest =>
    match f.children with
    | .text t :: children => { b with frames := { f with children := .text (t ++ s) :: children } :: rest }
    | _ => { b.addChild (.text s) with inText := true }
  | _, _ => { b.addChild (.text s) with inText := true }

def Frame.close (f : Frame) : Element :=
  ⟨f.space, .ofList f.name.part, f.attributes, f.children.reverse⟩

def readAttributes? (entities : Entities) (budget : Nat) (b : Build) (raw : List RawAttribute) :
    Option Build := do
  let (pending, references) ← raw.foldlM (readAttribute? entities budget) (b.pending, b.references)
  return { b with pending, references, inText := false }

/-- The namespaces at a tag and its attributes, with those of the unfinished tags before it. -/
def resolvePending? (b : Build) : Option (List (List Char × String) × List Attribute) := do
  let scope := b.pending.bound ++ b.scope
  return (scope, ← b.pending.others.foldlM (resolveAttribute? scope) [])

def closeTag (b : Build) (name : QName) : Except Failure Build := do
  if !b.tagMet then throw .malformed
  let _ ← orMalformed b.resolvePending?
  match b.frames with
  | f :: rest =>
    if f.name ≠ name then throw .malformed
    let closed := { b with frames := rest, pending := {} }.addChild (.element (Frame.close f))
    return { closed with inText := false }
  | [] => throw .closedTwice

def openTag? (entities : Entities) (budget : Nat) (b : Build) (name : QName)
    (raw : List RawAttribute) (empty : Bool) : Option Build := do
  if name.space = "xmlns".toList then none
  let b ← b.readAttributes? entities budget raw
  let (scope, attributes) ← b.resolvePending?
  let space ← resolve? scope name.space
  let frame : Frame := { name, scope, space, attributes, children := [] }
  let b := { b with pending := {}, tagMet := true }
  if empty then return b.addChild (.element (Frame.close frame))
  else return { b with frames := frame :: b.frames }

end Build

/-- Adds a character to the text that `done` holds, last character first. A carriage return becomes a
line feed when the next character shows whether one follows, or at the end. -/
def pushTextChar (c : Char) (atEnd : Bool) (done : List Char) : List Char :=
  match done with
  | '\r' :: before =>
    if atEnd && c = '\r' then '\n' :: '\n' :: before
    else if c != '\n' then c :: '\n' :: before
    else '\n' :: before
  | _ => if atEnd && c = '\r' then '\n' :: done else c :: done

def Build.flush (b : Build) (done : List Char) : Build :=
  if done.isEmpty then b else b.addText (.ofList done.reverse)

abbrev Enter := List Token → Build → Except Failure Build

/-- Reads the pieces of a text. Outside of entities the character of a reference, and the one after it,
stand as they are. -/
def readText (entities : Entities) (inEntity : Bool) (enter : Enter) :
    List Piece → (done : List Char) → (asIs : Bool) → Build → Except Failure Build
  | [], done, _, b => return b.flush done
  | .malformed :: _, _, _, _ => throw .malformed
  | .plain c :: rest, done, asIs, b =>
    let done := if asIs then c :: done else pushTextChar c rest.isEmpty done
    readText entities inEntity enter rest done false b
  | .reference (.char c) :: rest, done, asIs, b =>
    if inEntity then
      readText entities inEntity enter rest (pushTextChar c rest.isEmpty done) asIs b
    else readText entities inEntity enter rest (c :: done) true b
  | .reference (.entity name) :: rest, done, _, b => do
    let value ← orMalformed (entities.lookup name)
    let b := b.flush done
    let references ← orMalformed (countReference? inEntity b.references)
    let (tokens, _) := takeContent (value.length + 1) 1 value
    let after ← enter tokens { b with references, tagMet := false }
    let references := if inEntity then after.references else 0
    readText entities inEntity enter rest [] false { after with references, tagMet := b.tagMet }

def readCharacterData (done : List Char) : List Char → List Char
  | [] => done
  | c :: rest => readCharacterData (pushTextChar c rest.isEmpty done) rest

def readToken (entities : Entities) (budget : Nat) (enter : Enter) (b : Build) :
    Token → Except Failure Build
  | .opening name attributes empty => orMalformed (b.openTag? entities budget name attributes empty)
  | .unfinished name attributes =>
    if name.space = "xmlns".toList then throw .malformed
    else orMalformed (b.readAttributes? entities budget attributes)
  | .closing name => b.closeTag name
  | .text raw => readText entities (budget != maxDepth) enter (pieces raw) [] false b
  | .characterData raw => return b.addText (.ofList (readCharacterData [] raw).reverse)
  | .gap => return { b.addChild .gap with inText := false }
  | .malformed => throw .malformed

def readContent (entities : Entities) : (budget : Nat) → List Token → Build → Except Failure Build
  | 0, tokens, b => tokens.foldlM (readToken entities 0 fun _ _ => throw .malformed) b
  | budget + 1, tokens, b =>
    tokens.foldlM (readToken entities (budget + 1) (readContent entities budget)) b

end DesignCompiler.Xml

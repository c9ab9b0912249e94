import DesignCompiler.StyleSheet.Token
import DesignCompiler.Xml.Position

namespace DesignCompiler.StyleSheet

inductive ValueTest where
  | present
  | equals (value : String)
  | hasWord (word : String)
  /-- The value itself, or what comes before a hyphen in it. -/
  | begins (value : String)
  deriving Repr, DecidableEq

inductive Condition where
  | attribute (name : String) (test : ValueTest)
  | firstChild
  /-- A state that no element of a drawing is in. -/
  | never
  deriving Repr, DecidableEq

inductive Combinator where
  | descendant | child | adjacent
  deriving Repr, DecidableEq

structure Compound where
  combinator : Option Combinator
  element : Option String
  conditions : List Condition
  deriving Repr, DecidableEq

/-- The last compound comes first. -/
abbrev Selector := List Compound

def ValueTest.holds (value : String) : ValueTest → Bool
  | .present => true
  | .equals v => value = v
  | .hasWord w => (value.splitOn " ").contains w
  | .begins v => value = v || (v ++ "-").toList.isPrefixOf value.toList

def Condition.holds (p : Xml.Position) : Condition → Bool
  | .attribute name test => (p.attribute? none name).any test.holds
  | .firstChild => p.previous.isNone
  | .never => false

def Compound.holds (c : Compound) (p : Xml.Position) : Bool :=
  c.element.all (· = p.element.name) && c.conditions.all (·.holds p)

def ancestors : Xml.Position → List Xml.Position
  | ⟨_, _, _, none⟩ => []
  | ⟨_, _, _, some p⟩ => p :: ancestors p

def Selector.selects : Selector → Xml.Position → Bool
  | [], _ => true
  | c :: rest, p =>
    c.holds p && match c.combinator with
      | none => true
      | some .descendant => (ancestors p).any fun q => selects rest q
      | some .child => p.parent.any fun q => selects rest q
      | some .adjacent => p.previous.any fun q => selects rest q

/-- The numbers of ids, of other conditions and of element names, which decide between two rules. -/
def Selector.specificity (s : Selector) : Nat × Nat × Nat :=
  let conditions := s.flatMap Compound.conditions
  let isId : Condition → Bool
    | .attribute name _ => name = "id"
    | _ => false
  let bounded (n : Nat) := min n 255
  (bounded (conditions.countP isId), bounded (conditions.countP (!isId ·)),
    bounded (s.countP (·.element.isSome)))

namespace Reading

def valueTest : Reading ValueTest := do
  match (← next?) with
  | some ']' => return .present
  | some '=' =>
    skip 1
    return .equals (.ofList (← identOrQuoted))
  | some '~' =>
    skip 1
    need '='
    return .hasWord (.ofList (← identOrQuoted))
  | some '|' =>
    skip 1
    need '='
    return .begins (.ofList (← identOrQuoted))
  | _ => failure

def attributeCondition : Reading Condition := do
  need '['
  let name ← ident
  let test ← valueTest
  need ']'
  return .attribute (.ofList name) test

def pseudoClass : Reading Condition := do
  need ':'
  match String.ofList (← ident) with
  | "first-child" => return .firstChild
  | "link" | "visited" | "hover" | "active" | "focus" => return .never
  | "lang" =>
    need '('
    let name := (← get).takeWhile (· != ')')
    skip name.length
    need ')'
    if name.all Char.isWhitespace then failure else return .never
  | _ => failure

structure Partial where
  compounds : Selector := []
  combinator : Option Combinator := none
  isOpen : Bool := true

namespace Partial

def push (s : Partial) (element : Option String) (conditions : List Condition) : Partial :=
  ⟨⟨s.combinator, element, conditions⟩ :: s.compounds, none, false⟩

def restrict (s : Partial) (c : Condition) : Partial :=
  match s.combinator, s.compounds with
  | none, last :: rest => { s with
      compounds := { last with conditions := last.conditions ++ [c] } :: rest
      isOpen := false }
  | _, _ => s.push none [c]

def join (s : Partial) (c : Combinator) : Partial := { s with combinator := some c, isOpen := true }

def finish? (s : Partial) : Option Selector :=
  if s.isOpen || (s.compounds.getLast?.all fun c => c.combinator.isSome) then none
  else some s.compounds

end Partial

def combinator (s : Partial) (c : Combinator) : Reading Partial := do
  if s.isOpen then failure
  skip 1
  spaces
  return s.join c

def selectorStep (s : Partial) : Reading (Option Partial) := do
  match (← next?) with
  | none | some ',' | some '{' => return none
  | some '*' =>
    if !s.isOpen then failure
    skip 1
    return s.push none []
  | some '#' =>
    skip 1
    return s.restrict (.attribute "id" (.equals (.ofList (← ident))))
  | some '.' =>
    skip 1
    return s.restrict (.attribute "class" (.hasWord (.ofList (← ident))))
  | some '[' => return s.restrict (← attributeCondition)
  | some ':' => return s.restrict (← pseudoClass)
  | some '>' => combinator s .child
  | some '+' => combinator s .adjacent
  | some '/' =>
    if ['/', '*'].isPrefixOf (← get) then
      comment
      return some s
    else return none
  | some c =>
    if isSpace c then
      spaces
      if s.isOpen then return some s
      blanks
      match (← next?) with
      | none | some ',' | some '{' | some '>' | some '+' => return some s
      | _ => return s.join .descendant
    else
      let name ← ident
      if !s.isOpen then failure
      return s.push (some (.ofList name)) []

def selectorWithin (s : Partial) : (fuel : Nat) → Reading Selector
  | 0 => failure
  | fuel + 1 => do
    match (← selectorStep s) with
    | some s => selectorWithin s fuel
    | none => OptionT.mk (return s.finish?)

def selector : Reading Selector := do selectorWithin {} ((← get).length + 1)

end Reading

end DesignCompiler.StyleSheet

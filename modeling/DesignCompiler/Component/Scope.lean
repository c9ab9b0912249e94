import DesignCompiler.Style.Map

namespace DesignCompiler

inductive ClassName where
  | numbered (n : Nat)
  | named (name : String)
  deriving Repr, DecidableEq

def numberedClass (stem : String) (n : Nat) : String := stem ++ toString n

def ClassName.text (stem : String) : ClassName → String
  | .numbered n => numberedClass stem n
  | .named name => name

structure Rule where
  number : Nat
  style : StyleMap
  deriving Repr, DecidableEq

def Rule.className (stem : String) (r : Rule) : String := numberedClass stem r.number

def Rule.text? (stem : String) (r : Rule) : Option String := r.style.rule? (r.className stem)

inductive ExtraRule where
  | allotted (number : Nat) (selector : String) (declarations : List String)
  | written (text : String)
  deriving Repr, DecidableEq

def ExtraRule.text (stem : String) : ExtraRule → String
  | .allotted number selector declarations =>
    "." ++ numberedClass stem number ++ selector ++ " \x7b\n" ++ "\n".intercalate declarations
      ++ "\n\x7d"
  | .written text => text

structure Import where
  name : String
  fileName : String
  deriving Repr, DecidableEq

structure Scope where
  name : String
  classPrefix : String
  nextClass : Nat := 0
  rules : List Rule := []
  extra : List ExtraRule := []
  props : Table String := []
  imports : Table Import := []
  deriving Repr, DecidableEq

def defaultStyles : String :=
  "input \x7b font: inherit; border: inherit; padding: inherit; background-color: inherit; "
    ++ "color: inherit; \x7d\n"
    ++ "input:focus \x7b outline: none; \x7d\n"
    ++ ".vector :global(svg) \x7b left: 50%; top: 50%; "
    ++ "transform: translateX(-50%) translateY(-50%); position: absolute; \x7d"

namespace Scope

variable (s : Scope)

def allot : Nat × Scope := (s.nextClass, { s with nextClass := s.nextClass + 1 })

/-- Allots a class to a style. An empty style takes a class too, but needs no rule. -/
def addStyle (style : StyleMap) : Option Rule × Scope :=
  let (number, s) := s.allot
  if style.isEmpty then (none, s)
  else
    let rule : Rule := ⟨number, style⟩
    (some rule, { s with rules := s.rules ++ [rule] })

def addExtra (rule : ExtraRule) : Scope := { s with extra := s.extra ++ [rule] }

def declare (prop type : String) : Scope := { s with props := Table.put prop type s.props }

def addImport (i : Import) : Scope := { s with imports := Table.put i.name i s.imports }

def ruleTexts : List String :=
  s.rules.filterMap (Rule.text? s.classPrefix) ++ s.extra.map (ExtraRule.text s.classPrefix)

/-- The style sheet: default rules, the rules of the elements, extra rules, and the styles in the
description of the component. -/
def sheet (description : Option String) : String :=
  "\n".intercalate (defaultStyles :: s.ruleTexts ++ description.toList)

end Scope

end DesignCompiler

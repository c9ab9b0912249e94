import DesignCompiler.Component.Scope
import DesignCompiler.Markup.Printer
import DesignCompiler.Text.Template

namespace DesignCompiler

structure Head where
  id : String
  properties : Table String
  rule : Option Rule
  classes : List ClassName
  deriving Repr, DecidableEq

/-- The scene id is the id of the element unless a property sets one. -/
def Head.hasOwnId (h : Head) : Bool := !Table.contains "id" h.properties

def Head.classNames (h : Head) : List ClassName :=
  (h.rule.map fun r => .numbered r.number).toList ++ h.classes

def Head.text (stem : String) (h : Head) : String :=
  (if h.hasOwnId then " id='" ++ h.id ++ "'" else "")
    ++ String.join (h.properties.map fun (key, code) => " " ++ key ++ "=" ++ Markup.braced code)
    ++ " className='" ++ " ".intercalate (h.classNames.map (ClassName.text stem)) ++ "'"

inductive Guard where
  | truthy
  | falsy
  deriving Repr, DecidableEq

inductive Fragment where
  | guard (g : Guard) (prop : String)
  | guardEnd
  | slot (prop : String)
  | component (name nodeId : String)
  | drawing (number : Nat) (markup : Markup.Element)
  | picture (number : Nat) (url : String)
  | span (rule : Option Rule) (key text : String)
  | lineBreak (rule : Option Rule) (key : String)
  | blankLine (rule : Option Rule) (key : String)
  | input (head : Head) (type placeholder : String)
  deriving Repr, BEq

def nonBreakingSpaces (n : Nat) : String := String.join (List.replicate n "&nbsp;")

/-- The body of a span. Blanks at the ends of the text are written as spaces that do not break. -/
def spanBody (text : String) : String :=
  let chars := text.toList
  nonBreakingSpaces (chars.takeWhile Text.isBlank).length
    ++ Markup.braced ("`" ++ Text.template (Text.trim text) ++ "`")
    ++ nonBreakingSpaces (chars.reverse.takeWhile Text.isBlank).length

def keyAttribute (key : String) : String := " key=\"" ++ key ++ "\""

def classAttribute (stem : String) (rule : Option Rule) : String :=
  " className=\"" ++ (rule.map (Rule.className stem)).getD "" ++ "\""

def Guard.text : Guard → String
  | .truthy => "!!"
  | .falsy => "!"

def Fragment.text (stem : String) : Fragment → String
  | .guard g prop => "\x7b " ++ g.text ++ prop ++ " && ("
  | .guardEnd => ")\x7d"
  | .slot prop => Markup.braced prop
  | .component name nodeId => "<" ++ name ++ " \x7b...props\x7d nodeId='" ++ nodeId ++ "' />"
  | .drawing _ markup => Markup.print markup
  | .picture number url =>
    "<img className='vector " ++ numberedClass stem number ++ "' src='" ++ url ++ "' />"
  | .span rule key text =>
    let classText := if rule.isSome then classAttribute stem rule else ""
    "<span" ++ classText ++ keyAttribute key ++ ">" ++ spanBody text ++ "</span>"
  | .lineBreak rule key => "<br" ++ classAttribute stem rule ++ keyAttribute key ++ " />"
  | .blankLine rule key =>
    "<div" ++ classAttribute stem rule ++ keyAttribute key ++ ">&nbsp;</div>"
  | .input head type placeholder =>
    "<input" ++ head.text stem ++ " type=\"" ++ type ++ "\" placeholder=\"" ++ placeholder ++ "\" />"

/-- A node as it is drawn: up to three wrappers around its fragments and its children. -/
structure Rendered where
  node : Nat
  outer : Option Rule
  middle : Head
  inner : Option Rule
  prelude : List Fragment
  children : List Rendered
  content : List Fragment
  deriving Repr

structure Line where
  depth : Nat
  text : String
  deriving Repr, DecidableEq

def Line.print (l : Line) : String := Markup.tabs l.depth ++ l.text ++ "\n"

def Line.ofText (depth : Nat) (text : String) : List Line := (Text.lines text).map (⟨depth, ·⟩)

def wrap (depth : Nat) (opening : String) (body : List Line) : List Line :=
  Line.ofText depth opening ++ body ++ Line.ofText depth "</div>"

def wrap? (stem : String) (depth : Nat) (rule : Option Rule) (body : Nat → List Line) : List Line :=
  match rule with
  | some r => wrap depth ("<div className='" ++ r.className stem ++ "'>") (body (depth + 1))
  | none => body depth

def Fragment.lines (stem : String) (depth : Nat) (f : Fragment) : List Line :=
  Line.ofText depth (f.text stem)

namespace Rendered

mutual

def lines (stem : String) (depth : Nat) : Rendered → List Line
  | ⟨_, outer, middle, inner, prelude, children, content⟩ =>
    wrap? stem depth outer fun depth =>
      wrap depth ("<div" ++ middle.text stem ++ ">") <|
        wrap? stem (depth + 1) inner fun depth =>
          prelude.flatMap (Fragment.lines stem depth) ++ linesOfAll stem depth children
            ++ content.flatMap (Fragment.lines stem depth)

def linesOfAll (stem : String) (depth : Nat) : List Rendered → List Line
  | [] => []
  | r :: rest => lines stem depth r ++ linesOfAll stem depth rest

end

def print (stem : String) (r : Rendered) : String := String.join ((r.lines stem 0).map Line.print)

end Rendered

end DesignCompiler

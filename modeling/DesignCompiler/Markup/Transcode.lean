import DesignCompiler.Error
import DesignCompiler.Markup.Printer
import DesignCompiler.Markup.Style

namespace DesignCompiler.Markup

inductive ChildrenTarget where
  | root
  | element (id : String)
  deriving Repr, DecidableEq

structure Transcoding where
  source : String
  root : Option String := none
  refs : Table String := []
  passProps : Bool := false
  children : Option ChildrenTarget := none
  className : Option String := none
  childrenExpression : String := "props.children"
  propsExpression : String := "...props"
  deriving Repr

namespace Transcoding

variable (t : Transcoding)

def missing (element : String) : MarkupError := .elementNotFound t.source element

def extractRoot (e : Element) : Except MarkupError Element :=
  match t.root with
  | none => .ok e
  | some id => match e.find? id with
    | some found => .ok found
    | none => .error (t.missing id)

def addRef (e : Element) (ref : String × String) : Except MarkupError Element :=
  match e.update? ref.1 (·.setAttribute "ref" (.expression ref.2)) with
  | some e => .ok e
  | none => .error (t.missing ref.1)

def spreadProps (e : Element) : Element :=
  if t.passProps then { e with spreads := e.spreads ++ [t.propsExpression] } else e

def appendChildren (e : Element) : Element :=
  { e with children := e.children ++ [.expression t.childrenExpression] }

def placeChildren (e : Element) : Except MarkupError Element :=
  match t.children with
  | none => .ok e
  | some .root => .ok (t.appendChildren e)
  | some (.element id) => match e.update? id t.appendChildren with
    | some e => .ok e
    | none => .error (t.missing id)

def addClass (e : Element) : Element :=
  match t.className with
  | none => e
  | some name =>
    let merged := match e.attribute? "className" with
      | some existing => name ++ " " ++ existing
      | none => name
    e.setAttribute "className" (.literal merged)

def apply (document : Element) : Except MarkupError Element := do
  let root ← t.extractRoot document
  let root ← t.refs.foldlM t.addRef root
  let root ← t.placeChildren (t.spreadProps root)
  return objectifyStyles (t.addClass root)

end Transcoding

def unread (node : String) : Xml.Failure → MarkupError
  | .malformed => .parse node
  | .closedTwice => .closedTwice node

def transcode (raw : String) (t : Transcoding) : Except MarkupError Element :=
  match Element.parse raw with
  | .error failure => .error (unread t.source failure)
  | .ok document => t.apply (sanitize document)

end DesignCompiler.Markup

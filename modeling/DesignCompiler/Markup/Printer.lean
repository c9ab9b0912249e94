import DesignCompiler.Json.Printer
import DesignCompiler.Markup.Element
import DesignCompiler.Text.Basic

namespace DesignCompiler.Markup

def escapeAttribute (value : String) : String :=
  .ofList (value.toList.flatMap fun c =>
    if c = '&' then "&amp;".toList
    else if c = '"' then "&quot;".toList
    else if c = '<' then "&lt;".toList
    else [c])

def braced (code : String) : String := "\x7b" ++ code ++ "\x7d"

def endsText (c : Char) : Bool := c = '{' || c = '}' || c = '<' || c = '>'

def escapeText (text : String) : String :=
  if text.toList.any endsText then braced (Json.quote text) else text

def AttrValue.print : AttrValue → String
  | .literal value => "\"" ++ escapeAttribute value ++ "\""
  | .expression code => braced code

def openTag (tag : String) (attributes : Table AttrValue) (spreads : List String) : String :=
  "<" ++ tag ++ String.join (spreads.map fun code => " " ++ braced code)
    ++ String.join (attributes.map fun (name, value) => " " ++ name ++ "=" ++ value.print)

def Child.isElement {ε : Type} : Child ε → Bool
  | .element _ => true
  | _ => false

def Child.inlineText {ε : Type} : Child ε → String
  | .element _ => ""
  | .text s => escapeText s
  | .expression code => braced code

def tabs (n : Nat) : String := .ofList (List.replicate n '\t')

mutual

def printLines (depth : Nat) : Element → List String
  | ⟨tag, attributes, spreads, children⟩ =>
    let opening := tabs depth ++ openTag tag attributes spreads
    if children.isEmpty then [opening ++ " />"]
    else if children.any Child.isElement then
      (opening ++ ">") :: printChildren (depth + 1) children ++ [tabs depth ++ "</" ++ tag ++ ">"]
    else
      [opening ++ ">" ++ String.join (children.map Child.inlineText) ++ "</" ++ tag ++ ">"]

def printChildren (depth : Nat) : List (Child Element) → List String
  | [] => []
  | .element e :: rest => printLines depth e ++ printChildren depth rest
  | child :: rest => (tabs depth ++ child.inlineText) :: printChildren depth rest

end

def print (e : Element) : String := "\n".intercalate (printLines 0 e)

end DesignCompiler.Markup

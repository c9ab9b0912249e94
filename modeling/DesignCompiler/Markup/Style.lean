import DesignCompiler.Json.Printer
import DesignCompiler.Markup.Sanitize

namespace DesignCompiler.Markup

/-- Splits a style at semicolons outside parentheses; a closing parenthesis too many is ignored. -/
def declarationsAfter (depth : Nat) (current : List Char) : List Char → List (List Char)
  | [] => [current.reverse]
  | c :: cs =>
    if c = '(' then declarationsAfter (depth + 1) (c :: current) cs
    else if c = ')' then declarationsAfter (depth - 1) (c :: current) cs
    else if c = ';' && depth == 0 then current.reverse :: declarationsAfter 0 [] cs
    else declarationsAfter depth (c :: current) cs

def declarations (style : List Char) : List (List Char) := declarationsAfter 0 [] style

/-- The key and the value of a declaration; without a colon or a property there is none. -/
def styleEntry (declaration : List Char) : Option (String × String) := do
  let (property, value) ← Text.cut? [':'] declaration
  let property := String.ofList property
  if Text.trim property = "" then none
  else some (styleKey property, Text.trim (.ofList value))

def objectText (entries : List (String × String)) : String :=
  "\x7b" ++ ",".intercalate (entries.map fun (key, value) => Json.quote key ++ ":" ++ Json.quote value)
    ++ "\x7d"

def styleObject (style : String) : String :=
  objectText ((declarations style.toList).filterMap styleEntry)

def objectifyStyle (attributes : Table AttrValue) : Table AttrValue :=
  match attributes.lookup "style" with
  | some (.literal style) => Table.put "style" (.expression (styleObject style)) attributes
  | _ => attributes

mutual

def objectifyStyles : Element → Element
  | ⟨tag, attributes, spreads, children⟩ =>
    ⟨tag, objectifyStyle attributes, spreads, objectifyChildren children⟩

def objectifyChildren : List (Child Element) → List (Child Element)
  | [] => []
  | .element e :: rest => .element (objectifyStyles e) :: objectifyChildren rest
  | child :: rest => child :: objectifyChildren rest

end

end DesignCompiler.Markup

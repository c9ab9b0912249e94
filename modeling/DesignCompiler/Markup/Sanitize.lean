import DesignCompiler.Markup.Element
import DesignCompiler.Text.Basic
import DesignCompiler.Text.Words

namespace DesignCompiler.Markup

def supportedAttributes : List String :=
  ["id", "className", "style", "ref", "key", "d", "x", "y", "x1", "x2", "y1", "y2", "cx", "cy", "r",
    "rx", "ry", "dx", "dy", "fx", "fy", "width", "height", "viewBox", "preserveAspectRatio", "points",
    "transform", "fill", "fillOpacity", "fillRule", "clipPath", "clipRule", "clipPathUnits", "stroke",
    "strokeWidth", "strokeOpacity", "strokeLinecap", "strokeLinejoin", "strokeMiterlimit",
    "strokeDasharray", "strokeDashoffset", "opacity", "mask", "maskUnits", "maskContentUnits",
    "maskType", "offset", "stopColor", "stopOpacity", "gradientUnits", "gradientTransform",
    "spreadMethod", "patternUnits", "patternContentUnits", "patternTransform", "href", "xlinkHref",
    "filter", "filterUnits", "primitiveUnits", "colorInterpolationFilters", "stdDeviation", "in",
    "in2", "result", "mode", "type", "values", "operator", "floodColor", "floodOpacity", "textAnchor",
    "dominantBaseline", "fontFamily", "fontSize", "fontWeight", "letterSpacing", "visibility",
    "display", "xmlSpace"]

def isOpenAttribute (name : String) : Bool :=
  Text.startsWith "data-" name || Text.startsWith "aria-" name

/-- The name of an attribute in component markup: a class has its own name, a mark of a namespace is
joined to the capitalized rest, and words between hyphens are joined in camel case. -/
def attributeName (name : String) : String :=
  if name = "class" then "className"
  else if isOpenAttribute name then name
  else
    match Text.splitOnce? ":" name with
    | some (mark, part) => mark ++ Text.pascal part
    | none => if Text.contains "-" name then Text.camel name else name

/-- The key of a style property; a hyphen in front leaves a capital. -/
def styleKey (property : String) : String :=
  let property := Text.trim property
  if Text.startsWith "-" property then Text.pascal property else Text.camel property

def isSupportedAttribute (name : String) : Bool :=
  isOpenAttribute name || supportedAttributes.contains name

/-- A hyphen in the tag makes an element of the author's own. -/
def isCustomTag (tag : String) : Bool := Text.contains "-" tag

def sanitizeAttributes (tag : String) (attributes : Table AttrValue) : Table AttrValue :=
  if isCustomTag tag then attributes
  else
    Table.ofList ((attributes.map fun (name, value) => (attributeName name, value)).filter
      fun (name, _) => isSupportedAttribute name)

mutual

/-- Renames the attributes of all elements but custom ones, drops those that are not supported, and
drops blank texts. -/
def sanitize : Element → Element
  | ⟨tag, attributes, spreads, children⟩ =>
    ⟨tag, sanitizeAttributes tag attributes, spreads, sanitizeChildren children⟩

def sanitizeChildren : List (Child Element) → List (Child Element)
  | [] => []
  | .element e :: rest => .element (sanitize e) :: sanitizeChildren rest
  | .text s :: rest =>
    if Text.trim s = "" then sanitizeChildren rest else .text s :: sanitizeChildren rest
  | .expression code :: rest => .expression code :: sanitizeChildren rest

end

end DesignCompiler.Markup

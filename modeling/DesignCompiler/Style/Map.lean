import DesignCompiler.Decimal.Fixed
import DesignCompiler.Table
import DesignCompiler.Text.Words

namespace DesignCompiler

inductive StyleValue where
  | number (x : Float)
  | text (s : String)
  deriving Repr, DecidableEq

instance : Coe Float StyleValue := ⟨.number⟩

instance : Coe String StyleValue := ⟨.text⟩

def StyleValue.render : StyleValue → String
  | .number x => Decimal.text x
  | .text s => s

abbrev StyleMap := Table StyleValue

namespace StyleMap

def set (property : String) (value : StyleValue) (style : StyleMap) : StyleMap :=
  Table.put property value style

def get? (property : String) (style : StyleMap) : Option StyleValue := style.lookup property

def erase (property : String) (style : StyleMap) : StyleMap := Table.erase property style

def contains (property : String) (style : StyleMap) : Bool := Table.contains property style

def append (property value : String) (style : StyleMap) : StyleMap :=
  match style.get? property with
  | some old => style.set property (.text (old.render ++ ", " ++ value))
  | none => style.set property (.text value)

def merge (style other : StyleMap) : StyleMap :=
  Table.putAll other style

def set? (property : String) (value : Option StyleValue) (style : StyleMap) : StyleMap :=
  match value with
  | some v => style.set property v
  | none => style

def lengths : List String :=
  ["width", "min-width", "max-width", "height", "min-height", "max-height", "left", "right", "top",
    "bottom", "font-size", "margin-right", "margin-left", "margin-top", "margin-bottom",
    "padding-right", "padding-left", "padding-top", "padding-bottom"]

/-- The name of a property in a style sheet; one that begins with a capital has a vendor prefix. -/
def propertyName (property : String) : String :=
  let kebab := Text.kebab property
  if property.toList.head?.any Char.isUpper then "-" ++ kebab else kebab

def declaration (property : String) (value : StyleValue) : String :=
  let name := propertyName property
  let text := match value with
    | .number x => if lengths.contains name then Decimal.text x ++ "px" else Decimal.text x
    | .text s => s
  name ++ ": " ++ text ++ ";"

def declarations (style : StyleMap) : String :=
  "\n".intercalate (style.map fun (property, value) => declaration property value)

/-- The rule that gives the declarations to a class; an empty map needs none. -/
def rule? (className : String) (style : StyleMap) : Option String :=
  if style.isEmpty then none
  else some ("." ++ className ++ " \x7b\n" ++ style.declarations ++ "\n\x7d")

end StyleMap

end DesignCompiler

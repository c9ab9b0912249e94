import DesignCompiler.Error
import DesignCompiler.Text.Basic

namespace DesignCompiler

structure Delimiters where
  slot : String := "??"
  pair : String := "&"
  keyValue : String := "="
  nested : String := "."
  deriving Repr, DecidableEq, Inhabited

/-- How styles refer to pictures: by the URL of the design tool, by a file that is written, or by
their own bytes. -/
inductive ImageMode where
  | remote | file | inline
  deriving Repr, DecidableEq, Inhabited

inductive ImageFormat where
  | png | jpg | svg
  deriving Repr, DecidableEq, Inhabited

def ImageFormat.extension : ImageFormat → String
  | .png => "png"
  | .jpg => "jpg"
  | .svg => "svg"

structure Options where
  outDir : String := "./src/design-system"
  classPrefix : String := "figma-"
  delimiters : Delimiters := {}
  styleDelimiter : String := "!style!"
  imports : List String := []
  decorator : String := "React.memo"
  instanceSuffix : String := "Generated"
  fileSuffix : String := ".generated"
  imageMode : ImageMode := .remote
  imageFormat : ImageFormat := .png
  imageScale : Float := 2
  imageDir : String := "./static/images"
  imageUrlPrefix : String := "/images/"
  strictMarkup : Bool := false
  deriving Repr, DecidableEq, Inhabited

namespace Options

def mobxImport : String := "import \x7b observer \x7d from 'mobx-react';"

def ofPreset (name : String) : Except ConfigError Options :=
  if name = "default" then .ok {}
  else if name = "mobx" then
    .ok { imports := [mobxImport], decorator := "observer" }
  else .error (.unknownPreset name)

def isAsciiLetter (c : Char) : Bool := c.isAlpha

def isAsciiAlphanumeric (c : Char) : Bool := c.isAlphanum

def isWordChar (c : Char) : Bool := isAsciiAlphanumeric c || c = '_'

def isClassStart (c : Char) : Bool := isAsciiLetter c || c = '_' || c = '-'

def isClassChar (c : Char) : Bool := isWordChar c || c = '-'

def isClassPrefix : List Char → Bool
  | [] => false
  | c :: cs => isClassStart c && cs.all isClassChar

def checkDelimiters (before : List String) : List (String × String) → Except ConfigError Unit
  | [] => .ok ()
  | (option, value) :: rest =>
    if value = "" then .error (.missing option)
    else if before.contains value then .error (.repeatedDelimiter option value)
    else checkDelimiters (value :: before) rest

def Delimiters.named (d : Delimiters) : List (String × String) :=
  [("delimiters.slot", d.slot), ("delimiters.pair", d.pair), ("delimiters.keyValue", d.keyValue),
    ("delimiters.nested", d.nested)]

/-- The first fault of the options, in the order in which they are checked. -/
def validate (o : Options) : Except ConfigError Unit := do
  if o.classPrefix = "" then throw (.missing "classPrefix")
  unless isClassPrefix o.classPrefix.toList do throw (.invalidClassPrefix o.classPrefix)
  checkDelimiters [] (Delimiters.named o.delimiters)
  if o.styleDelimiter = "" then throw (.missing "styleDescriptionDelimiter")
  if Text.trim o.decorator = "" then throw (.missing "decorator")
  unless o.instanceSuffix.toList.all isWordChar do throw (.invalidInstanceSuffix o.instanceSuffix)
  unless o.imageScale.isFinite && 0 < o.imageScale do throw (.invalidImageScale o.imageScale)

section Checks

variable {ε : Type} {p : Prop} [Decidable p] {e : ε} {rest : Except ε Unit}

theorem throw_if_eq_ok_iff :
    (if p then (do throw e; rest) else rest) = .ok () ↔ ¬p ∧ rest = .ok () := by
  by_cases hp : p
  · rw [if_pos hp]
    exact ⟨nofun, fun h => absurd hp h.1⟩
  · rw [if_neg hp, and_iff_right hp]

theorem throw_unless_eq_ok_iff :
    (if p then rest else (do throw e; rest)) = .ok () ↔ p ∧ rest = .ok () := by
  by_cases hp : p
  · rw [if_pos hp, and_iff_right hp]
  · rw [if_neg hp]
    exact ⟨nofun, fun h => absurd h.1 hp⟩

theorem seq_eq_ok_iff {x : Except ε Unit} : (do x; rest) = .ok () ↔ x = .ok () ∧ rest = .ok () := by
  cases x with
  | ok _ => exact ⟨fun h => ⟨rfl, h⟩, And.right⟩
  | error _ => exact ⟨nofun, fun h => nomatch h.1⟩

end Checks

theorem validate_eq_ok_iff {o : Options} : o.validate = .ok () ↔
    o.classPrefix ≠ "" ∧ isClassPrefix o.classPrefix.toList ∧
      checkDelimiters [] (Delimiters.named o.delimiters) = .ok () ∧ o.styleDelimiter ≠ "" ∧
      Text.trim o.decorator ≠ "" ∧ o.instanceSuffix.toList.all isWordChar ∧
      (o.imageScale.isFinite && 0 < o.imageScale) := by
  have hlast : (if o.imageScale.isFinite && 0 < o.imageScale then pure ()
      else throw (ConfigError.invalidImageScale o.imageScale) : Except ConfigError Unit) = .ok () ↔
      (o.imageScale.isFinite && 0 < o.imageScale) := by
    cases o.imageScale.isFinite && 0 < o.imageScale with
    | true => exact ⟨fun _ => rfl, fun _ => rfl⟩
    | false => exact ⟨nofun, nofun⟩
  simp only [validate, throw_if_eq_ok_iff, throw_unless_eq_ok_iff, seq_eq_ok_iff, hlast]

end Options

end DesignCompiler

import DesignCompiler.Vector.Scan

namespace DesignCompiler.Vector

inductive LengthUnit where
  | pixel | letter | halfLetter | inch | centimetre | millimetre | point | pica | percent
  deriving Repr, DecidableEq

def LengthUnit.names : List (String × LengthUnit) :=
  [("", .pixel), ("px", .pixel), ("em", .letter), ("ex", .halfLetter), ("in", .inch),
    ("cm", .centimetre), ("mm", .millimetre), ("pt", .point), ("pc", .pica), ("%", .percent)]

structure Length where
  number : Float
  unit : LengthUnit

def Length.zero : Length := ⟨0, .pixel⟩

def Length.full : Length := ⟨100, .percent⟩

def Scan.length : Scan Length := do
  let number ← number
  let rest ← get
  let named := LengthUnit.names.find? fun (name, _) => name != "" && name.toList.isPrefixOf rest
  match named with
  | some (name, unit) =>
    skip name.length
    return ⟨number, unit⟩
  | none => return ⟨number, .pixel⟩

def Length.parse? : String → Option Length := Scan.all? Scan.length

structure View where
  width : Float32
  height : Float32

inductive Direction where
  | across | down
  /-- Neither of the two: the root mean square of both. -/
  | diagonal
  deriving Repr, DecidableEq

def View.along (v : View) : Direction → Float32
  | .across => v.width
  | .down => v.height
  | .diagonal => ((v.width * v.width + v.height * v.height) / 2).sqrt

def resolution : Float32 := 96

/-- Pixels of a length that does not refer to the view box; `none` for a percentage. -/
def Length.absolute? (l : Length) (letters : Float32) : Option Float32 :=
  let n := l.number.toFloat32
  match l.unit with
  | .pixel => some n
  | .letter => some (n * letters)
  | .halfLetter => some (n * letters / 2)
  | .inch => some (n * resolution)
  | .centimetre => some (n * resolution / 2.54)
  | .millimetre => some (n * resolution / 25.4)
  | .point => some (n * resolution / 72)
  | .pica => some (n * resolution / 6)
  | .percent => none

def Length.pixels (l : Length) (direction : Direction) (view : View) (letters : Float32) : Float32 :=
  (l.absolute? letters).getD (view.along direction * l.number.toFloat32 / 100)

def namedLetters : List (String × Int) :=
  [("xx-small", -3), ("x-small", -2), ("small", -1), ("smaller", -1), ("medium", 0), ("large", 1),
    ("larger", 1), ("x-large", 2), ("xx-large", 3)]

def stepsOf : Nat → Float32
  | 0 => 1
  | 1 => 1.2
  | 2 => 1.2 * 1.2
  | _ => 1.2 * (1.2 * 1.2)

def lettersWithin (outer : Float32) (value : String) : Float32 :=
  match Length.parse? value with
  | some l => (l.absolute? outer).getD (l.number.toFloat32 * outer * 0.01)
  | none =>
    let step := (namedLetters.lookup value).getD 0
    let factor := stepsOf step.natAbs
    outer * (if step < 0 then 1 / factor else factor)

end DesignCompiler.Vector

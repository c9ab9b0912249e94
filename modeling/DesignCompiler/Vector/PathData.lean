import DesignCompiler.Vector.Arc

namespace DesignCompiler.Vector

inductive Handle where
  | nothing
  | cubic (control : Point Float)
  | quadratic (control : Point Float)

/-- A path that is being read, in double precision; its pen draws in single precision. -/
structure PathReader where
  pen : Pen := {}
  /-- The letter of the last command; a move goes on as lines. -/
  command : Option Char := none
  here : Point Float := .zero
  start : Point Float := .zero
  handle : Handle := .nothing

namespace PathReader

variable (r : PathReader)

def point (relative : Bool) : Scan (Point Float) := do
  let x ← Scan.listNumber
  let y ← Scan.listNumber
  return if relative then ⟨r.here.x + x, r.here.y + y⟩ else ⟨x, y⟩

/-- A zero or a one, which need not be set apart from what follows. -/
def flag : Scan Bool := do
  Scan.spaces
  let c ← Scan.next?
  if c = some '0' || c = some '1' then
    Scan.skip 1
    Scan.optional ','
    Scan.spaces
    return c = some '1'
  else failure

def reflected (control : Point Float) : Point Float :=
  ⟨r.here.x * 2 - control.x, r.here.y * 2 - control.y⟩

def lineTo (p : Point Float) : PathReader :=
  { r with pen := r.pen.draw (.line (spot p)), here := p, handle := .nothing }

def cubicTo (a b p : Point Float) : PathReader :=
  { r with pen := r.pen.draw (.cubic (spot a) (spot b) (spot p)), here := p, handle := .cubic b }

def quadraticTo (c p : Point Float) : PathReader :=
  { r with pen := r.pen.draw (.quadratic (spot c) (spot p)), here := p, handle := .quadratic c }

def draw (letter : Char) : Scan PathReader := do
  let relative := letter.isLower
  match letter.toUpper with
  | 'M' =>
    let p ← r.point relative
    return { r with pen := r.pen.move (spot p), here := p, start := p, handle := .nothing }
  | 'L' => return r.lineTo (← r.point relative)
  | 'H' =>
    let x ← Scan.listNumber
    return r.lineTo ⟨if relative then r.here.x + x else x, r.here.y⟩
  | 'V' =>
    let y ← Scan.listNumber
    return r.lineTo ⟨r.here.x, if relative then r.here.y + y else y⟩
  | 'C' =>
    let a ← r.point relative
    let b ← r.point relative
    return r.cubicTo a b (← r.point relative)
  | 'S' =>
    let b ← r.point relative
    let p ← r.point relative
    return match r.handle with
      | .cubic control => r.cubicTo (r.reflected control) b p
      | _ => r.cubicTo r.here b p
  | 'Q' =>
    let c ← r.point relative
    return r.quadraticTo c (← r.point relative)
  | 'T' =>
    let p ← r.point relative
    return match r.handle with
      | .quadratic control => r.quadraticTo (r.reflected control) p
      | _ => r.quadraticTo r.here p
  | 'A' =>
    let rx ← Scan.listNumber
    let ry ← Scan.listNumber
    let turn ← Scan.listNumber
    let large ← flag
    let clockwise ← flag
    let p ← r.point relative
    let arc : Arc := ⟨r.here, p, ⟨rx, ry⟩, radians turn, large, clockwise⟩
    return { r with pen := r.pen.arc arc, here := p, handle := .nothing }
  | _ => return { r with pen := r.pen.close, here := r.start, handle := .nothing }

def isCommand (c : Char) : Bool := "MmZzLlHhVvCcSsQqTtAa".contains c

def isNumberStart (c : Char) : Bool := c.isDigit || c = '.' || c = '-' || c = '+'

/-- Reads one command, or goes on with the last one. The first command is a move, and nothing goes on
after a part is closed. -/
def step : Scan PathReader := do
  Scan.spaces
  match (← Scan.next?) with
  | none => failure
  | some c =>
    if isCommand c then
      if r.command.isNone && c != 'M' && c != 'm' then failure
      Scan.skip 1
      return { ← r.draw c with command := some c }
    else
      let letter ← match r.command with
        | none | some 'Z' | some 'z' => failure
        | some 'M' => pure 'L'
        | some 'm' => pure 'l'
        | some letter => pure letter
      if isNumberStart c then r.draw letter else failure

def readOn (r : PathReader) : (fuel : Nat) → List Char → PathReader
  | 0, _ => r
  | fuel + 1, s =>
    match r.step.run s with
    | some (r, rest) => readOn r fuel rest
    | none => r

end PathReader

def outlineOfPath? (data : String) : Option Outline :=
  (PathReader.readOn {} (data.length + 1) data.toList).pen.outline?

def outlineOfPoints? (points : String) (closed : Bool) : Option Outline :=
  let pair : Scan Spot := do
    let x ← Scan.listNumber
    let y ← Scan.listNumber
    return spot ⟨x, y⟩
  match Scan.leading pair (points.length + 1) points.toList with
  | p :: q :: rest =>
    let pen := (q :: rest).foldl (fun pen p => pen.draw (.line p)) (Pen.move {} p)
    (if closed then pen.close else pen).outline?
  | _ => none

end DesignCompiler.Vector

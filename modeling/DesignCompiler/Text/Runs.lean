import DesignCompiler.Text.Basic

namespace DesignCompiler.Text

inductive Piece where
  /-- Characters of one style; 0 is the style of the whole text. Runs are counted from 0. -/
  | run (text : String) (style index : Nat) (key : String)
  | lineBreak (key : String)
  | blankLine (key : String)
  deriving Repr, DecidableEq

def units (c : Char) : Nat := if c.toNat < 0x10000 then 1 else 2

structure OpenRun where
  chars : List Char := []
  style : Nat := 0
  index : Nat := 0

def OpenRun.close (run : OpenRun) (key : String) : List Piece × OpenRun :=
  if run.chars.isEmpty then ([], run)
  else
    ([.run (.ofList run.chars.reverse) run.style run.index key],
      { run with chars := [], index := run.index + 1 })

def breakKey (offset : Nat) : String := "br" ++ toString offset

/-- The pieces of what is left of a text, whose first character stands at `offset` and has the first
of the styles; positions past the last style have style 0. -/
def runsFrom (offset : Nat) (afterFeed : Bool) (styles : List Nat) (run : OpenRun) :
    List Char → List Piece
  | [] => (run.close "end").1
  | c :: cs =>
    let offset' := offset + units c
    let styles' := styles.drop (units c)
    if c = '\n' then
      if afterFeed then .blankLine (breakKey offset) :: runsFrom offset' true styles' run cs
      else
        let (closed, run) := run.close (toString offset)
        closed ++ .lineBreak (breakKey offset) :: runsFrom offset' true styles' run cs
    else
      let style := styles.headD 0
      if style = run.style then
        runsFrom offset' false styles' { run with chars := c :: run.chars } cs
      else
        let (closed, run) := run.close (toString offset)
        closed ++ runsFrom offset' false styles' { run with chars := [c], style } cs

/-- The pieces of a text with a style for each UTF-16 unit, by which the design tool counts. A character has the style
of its first unit. -/
def runs (text : String) (styles : List Nat) : List Piece :=
  runsFrom 0 false styles {} text.toList

end DesignCompiler.Text

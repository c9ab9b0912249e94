import DesignCompiler.Component.Visit
import DesignCompiler.Decimal.Reading
import DesignCompiler.Text.Runs

namespace DesignCompiler

def textColor (attrs : NodeAttributes) : StyleMap :=
  match attrs.fills.getLast?.bind (·.color) with
  | some color => [("color", .text color.css)]
  | none => []

def textStroke (attrs : NodeAttributes) : StyleMap :=
  match attrs.strokes.getLast?.bind (·.color) with
  | some color =>
    [("WebkitTextStroke", .text (px (attrs.strokeWeight.getD 1) ++ " " ++ color.css))]
  | none => []

/-- The alignment of the lines of a text; justified lines have none of their own. -/
def horizontalTextAlign : Option TextAlignHorizontal → StyleMap
  | some .center => [("justifyContent", "center"), ("textAlign", "center")]
  | some .left => [("justifyContent", "flex-start"), ("textAlign", "left")]
  | some .right => [("justifyContent", "flex-end"), ("textAlign", "right")]
  | _ => []

def verticalTextAlign : Option TextAlignVertical → StyleMap
  | some .center =>
    [("verticalAlign", "middle"), ("alignItems", "center"), ("alignContent", "center")]
  | some .top =>
    [("verticalAlign", "top"), ("alignItems", "flex-start"), ("alignContent", "flex-start")]
  | some .bottom =>
    [("verticalAlign", "bottom"), ("alignItems", "flex-end"), ("alignContent", "flex-end")]
  | none => []

def Effect.shadow? (e : Effect) : Option String :=
  match e.kind with
  | .dropShadow => some e.dropShadow
  | .innerShadow => some e.innerShadow
  | _ => none

def addTextShadow (asFilter : Bool) (style : StyleMap) (shadow : String) : StyleMap :=
  if asFilter then style.append "filter" ("drop-shadow(" ++ shadow ++ ")")
  else style.append "textShadow" shadow

def textBox (attrs : NodeAttributes) (asFilter : Bool) (middle : StyleMap) : StyleMap :=
  let style := attrs.style.getD {}
  let middle := (middle.merge (textColor attrs)).merge (textStroke attrs)
  let middle := (style.applyTo middle).merge
    [("display", "flex"), ("maxWidth", "-webkit-fill-available"), ("alignContent", "flex-start")]
  let middle := (middle.merge (horizontalTextAlign style.textAlignHorizontal)).merge
    (verticalTextAlign style.textAlignVertical)
  ((attrs.effects.filter (·.visible)).filterMap Effect.shadow?).foldl (addTextShadow asFilter) middle

def inputStyle : StyleMap := [("flex", .number 1), ("height", "100%")]

/-- An input with the text as its placeholder. It takes the properties of the wrapper away. -/
def Work.drawInput (w : Work) : Work :=
  let (rule, w) := w.addStyle inputStyle
  w.editVisit fun v =>
    let head : Head := { id := v.sceneId, properties := v.properties, rule, classes := v.classes }
    let type := (Params.value? "input" v.params).getD "text"
    let placeholder := Text.replace "\"" "&quot;" (v.node.attrs.characters.getD "")
    { v.addContent (.input head type placeholder) with properties := [] }

structure RunOptions where
  overrides : Table TypeStyle
  ellipsis : Option (List Nat)
  flex : Bool
  wrap : Bool

namespace RunOptions

/-- The runs that an `ellipsis` parameter lists; what is no number is passed over. -/
def ellipsisRuns (params : Params) : Option (List Nat) :=
  match params.lookup "ellipsis" with
  | some .flag => none
  | some (.text list) => some ((Text.split "," list).filterMap fun s => Decimal.readWord? (Text.trim s))
  | _ => some []

def ofNode (node : Node) : RunOptions where
  overrides := node.attrs.styleOverrideTable
  ellipsis := ellipsisRuns node.params
  flex := node.params.contains "ellipsisFlex"
  wrap := node.params.contains "ellipsisWrap"

variable (o : RunOptions)

def lastStyle : Nat := (o.overrides.keys.filterMap Decimal.readWord?).foldl max 0

def override? (style : Nat) : Option TypeStyle := o.overrides.lookup (toString style)

def solidFill? (style : Nat) : Option Paint :=
  ((o.override? style).bind fun s => s.fills.getLast?).filter (·.kind = .solid)

def isTruncated (index : Nat) : Bool :=
  match o.ellipsis with
  | none => true
  | some runs => runs.contains index

def runColor (style : Nat) : StyleMap :=
  match (o.solidFill? style).bind (·.color) with
  | some color => [("color", .text color.css)]
  | none => []

/-- Adds the styles of a run to those that earlier runs of the same number left. -/
def runStyle (style index : Nat) (earlier : StyleMap) : StyleMap :=
  let colored := earlier.merge (o.runColor style)
  let typed := match o.override? style with
    | some s => s.applyTo colored
    | none => colored
  let cut :=
    if o.isTruncated index then typed.merge [("overflow", "hidden"), ("textOverflow", "ellipsis")]
    else typed
  if style = o.lastStyle && o.flex then cut.set "flex" (.number 1) else cut

def boxStyle (style : Nat) (middle : StyleMap) : StyleMap :=
  let faded := middle.set? "opacity" (((o.solidFill? style).bind (·.opacity)).map .number)
  if style = o.lastStyle && o.wrap then faded.set "flexWrap" "wrap" else faded

end RunOptions

def lineBreakStyle : StyleMap :=
  [("flex", .number 1), ("content", "\"\""), ("minWidth", "-webkit-fill-available")]

def blankLineStyle : StyleMap := [("flex", .number 1), ("minWidth", "-webkit-fill-available")]

abbrev RunStyles := List (Nat × StyleMap)

def Work.drawPiece (o : RunOptions) (w : Work) (styles : RunStyles) : Text.Piece → Work × RunStyles
  | .run text style index key =>
    let runStyle := o.runStyle style index ((styles.lookup style).getD [])
    let (rule, w) := w.addStyle runStyle
    (w.editVisit fun v =>
      { v.addContent (.span rule key text) with middle := o.boxStyle style v.middle },
      (style, runStyle) :: styles)
  | .lineBreak key =>
    let (rule, w) := w.addStyle lineBreakStyle
    (w.editVisit fun v => (v.addContent (.lineBreak rule key)).setMiddle "flexWrap" "wrap", styles)
  | .blankLine key =>
    let (rule, w) := w.addStyle blankLineStyle
    (w.editVisit fun v => v.addContent (.blankLine rule key), styles)

def Work.drawPieces (o : RunOptions) (w : Work) (styles : RunStyles) : List Text.Piece → Work
  | [] => w
  | piece :: rest =>
    let (w, styles) := w.drawPiece o styles piece
    w.drawPieces o styles rest

def Work.drawText (w : Work) : Work :=
  let node := w.visit.node
  if node.kind ≠ .text then w
  else
    let w := w.editVisit fun v =>
      { v with middle := textBox node.attrs (v.params.contains "filterShadow") v.middle }
    if node.params.contains "input" then w.drawInput
    else
      w.drawPieces (.ofNode node) []
        (Text.runs (node.attrs.characters.getD "") node.attrs.styleOverrides)

end DesignCompiler

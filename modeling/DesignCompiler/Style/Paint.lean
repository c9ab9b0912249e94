import DesignCompiler.Scene.Basic
import DesignCompiler.Style.Map

namespace DesignCompiler

open Decimal (clampToInt64)

def roundScaled (factor x : Float) : Int := clampToInt64 (x * factor).round

def px (x : Float) : String := Decimal.text x ++ "px"

def percent (x : Float) : String := Decimal.text x ++ "%"

def Color.css (c : Color) : String :=
  s!"rgba({roundScaled 255 c.r}, {roundScaled 255 c.g}, {roundScaled 255 c.b}, {Decimal.text c.a})"

def Effect.dropShadow (e : Effect) : String :=
  let offset := e.offset.getD .zero
  " ".intercalate [px offset.x, px offset.y, px e.radius, (e.color.getD .black).css]

def Effect.innerShadow (e : Effect) : String := "inset " ++ e.dropShadow

namespace Paint

def stopList (p : Paint) : String :=
  ", ".intercalate (p.gradientStops.map fun stop =>
    s!"{stop.color.css} {roundScaled 100 stop.position}%")

/-- The direction from the first handle to the second, clockwise from upwards, in radians. -/
def gradientAngle (p : Paint) : Float :=
  match p.gradientHandles with
  | start :: stop :: _ => Float.atan2 (stop.x - start.x) (start.y - stop.y)
  | _ => 0

def linearGradient (p : Paint) : String :=
  s!"linear-gradient({Decimal.text p.gradientAngle}rad, {p.stopList})"

def radialGradient (p : Paint) : String := s!"radial-gradient({p.stopList})"

end Paint

def TextAlignHorizontal.css : TextAlignHorizontal → String
  | .left => "left"
  | .right => "right"
  | .center => "center"
  | .justified => "justify"

/-- Sets the font properties that a style gives, and always the slant. -/
def TypeStyle.applyTo (s : TypeStyle) (target : StyleMap) : StyleMap :=
  target
    |>.set? "fontSize" (s.fontSize.map .number)
    |>.set? "fontWeight" (s.fontWeight.map .number)
    |>.set? "fontFamily" (s.fontFamily.map .text)
    |>.set? "textAlign" (s.textAlignHorizontal.map fun align => .text align.css)
    |>.set "fontStyle" (.text (if s.italic then "italic" else "normal"))
    |>.set? "lineHeight" (s.lineHeightPercent.map fun x => .text (percent (x * 1.25)))
    |>.set? "letterSpacing" (s.letterSpacing.map fun x => .text (px x))

end DesignCompiler

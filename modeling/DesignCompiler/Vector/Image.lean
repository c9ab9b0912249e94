import DesignCompiler.Bytes.Base64
import DesignCompiler.Picture.Stated
import DesignCompiler.Text.Basic
import DesignCompiler.Vector.ViewBox

namespace DesignCompiler.Vector

/-- A byte of a text where `%` and two hexadecimal digits stand for any byte. -/
def unescaped : Bytes → Bytes
  | [] => []
  | [b] => [b]
  | [b, c] => [b, c]
  | b :: c :: d :: rest =>
    let digit? (b : UInt8) := Json.hexValue? (Char.ofNat b.toNat)
    match digit? c, digit? d with
    | some high, some low =>
      if b.toNat = '%'.toNat then .ofNat (16 * high + low) :: unescaped rest
      else b :: unescaped (c :: d :: rest)
    | _, _ => b :: unescaped (c :: d :: rest)

def dataOf? (address : String) : Option (String × Bytes) := do
  let (scheme, rest) ← Text.splitOnce? ":" (Text.trim address)
  if scheme.map Char.toLower != "data" then none
  let (head, body) ← Text.splitOnce? "," rest
  let parts := (Text.split ";" head).map fun part => (Text.trim part).map Char.toLower
  let bytes := unescaped (Bytes.ofString ((Text.splitOnce? "#" body).map Prod.fst |>.getD body))
  let type := parts.headD ""
  let type := if type.contains '/' then type else "text/plain"
  if parts.length > 1 && parts.getLast? = some "base64" then
    let digits := (← Bytes.text? bytes).toList.filter fun c => !Xml.isSpace c && c != '\x0c' && c != '='
    let padding := List.replicate ((4 - digits.length % 4) % 4) '='
    return (type, ← Bytes.ofBase64Chars? (digits ++ padding))
  else return (type, bytes)

def imageSize? (drawing? : String → Option Spot) (type : String) (bytes : Bytes) : Option Spot :=
  let pixels? : Option Spot :=
    ((Picture.statedSize? bytes).map fun (w, h) => ⟨.ofNat w, .ofNat h⟩ : Option Spot).filter fun s =>
      isPositive s.x && isPositive s.y
  if type = "image/svg+xml" then (Bytes.text? bytes).bind drawing?
  else if ["image/png", "image/jpeg", "image/jpg", "image/gif", "image/webp"].contains type then pixels?
  else if type = "text/plain" then
    if (Picture.format? bytes).isSome then pixels? else (Bytes.text? bytes).bind drawing?
  else none

def Node.imageSize? (n : Node) (drawing? : String → Option Spot) : Option Spot := do
  let (type, bytes) ← dataOf? (← n.property? "href")
  Vector.imageSize? drawing? type bytes

/-- The room of an image of a size; an edge that is not written keeps the proportion. -/
def Node.imageRoom? (n : Node) (view : View) (size : Spot) : Option Extent :=
  let width := n.across view "width"
  let height := n.down view "height"
  let (width, height) :=
    match n.length? "width", n.length? "height" with
    | some _, some _ => (width, height)
    | some _, none => (width, size.y * (width / size.x))
    | none, some _ => (size.x * (height / size.y), height)
    | none, none => (size.x, size.y)
  (Extent.ofSize? (n.across view "x") (n.down view "y") width height).filter Extent.isSolid

def Fit.size (f : Fit) (size : Spot) (width height : Float32) : Spot :=
  if f.spare.isNone then ⟨width, height⟩
  else
    let byHeight := height * size.x / size.y
    if (if f.slice then byHeight ≤ width else width ≤ byHeight) then
      ⟨width, width * size.y / size.x⟩
    else ⟨byHeight, height⟩

def Fit.image (f : Fit) (size : Spot) (room : Extent) : Transform :=
  let fitted := f.size size room.width room.height
  let place (start spare part : Float32) : Float32 :=
    if part == 0 then start else if part == 1 then start + spare else start + spare / 2
  let (across, down) := f.spare.getD (0, 0)
  ⟨fitted.x / size.x, 0, place room.left (room.width - fitted.x) across,
    0, fitted.y / size.y, place room.top (room.height - fitted.y) down⟩

end DesignCompiler.Vector

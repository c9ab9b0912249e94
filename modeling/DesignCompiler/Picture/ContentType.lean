import DesignCompiler.Bytes.Utf8
import DesignCompiler.Text.Basic

namespace DesignCompiler.Picture

/-- The beginning of a file: fixed bytes, and bytes that may be any. -/
abbrev Signature := List (Option UInt8)

def Signature.begins : Signature → Bytes → Bool
  | [], _ => true
  | _ :: _, [] => false
  | none :: signature, _ :: bytes => begins signature bytes
  | some b :: signature, b' :: bytes => b = b' && begins signature bytes

def fixed (bytes : List UInt8) : Signature := bytes.map some

def letters (s : String) : Signature := fixed (Bytes.ofString s)

def gap (n : Nat) : Signature := List.replicate n none

def signatures : List (Signature × String) :=
  [(fixed [0x89, 0x50, 0x4E, 0x47, 0x0D, 0x0A, 0x1A, 0x0A], "image/png"),
    (fixed [0xFF, 0xD8, 0xFF], "image/jpeg"),
    (letters "GIF89a", "image/gif"),
    (letters "GIF87a", "image/gif"),
    (letters "RIFF" ++ gap 4 ++ letters "WEBP", "image/webp"),
    (fixed [0x4D, 0x4D, 0, 0x2A], "image/tiff"),
    (fixed [0x49, 0x49, 0x2A, 0], "image/tiff"),
    (letters "DDS ", "image/vnd-ms.dds"),
    (letters "BM", "image/bmp"),
    (fixed [0, 0, 1, 0], "image/x-icon"),
    (letters "#?RADIANCE", "image/vnd.radiance"),
    (fixed [0, 0] ++ gap 2 ++ letters "ftypavif", "image/avif"),
    (fixed [0x76, 0x2F, 0x31, 0x01], "image/x-exr"),
    (letters "qoif", "image/x-qoi"),
    (letters "P1", "image/x-portable-anymap"),
    (letters "P2", "image/x-portable-anymap"),
    (letters "P3", "image/x-portable-anymap"),
    (letters "P4", "image/x-portable-anymap"),
    (letters "P5", "image/x-portable-anymap"),
    (letters "P6", "image/x-portable-anymap"),
    (letters "P7", "image/x-portable-anymap"),
    (letters "farbfeld", "application/octet-stream")]

def signedType? (bytes : Bytes) : Option String :=
  (signatures.find? fun (signature, _) => signature.begins bytes).map Prod.snd

def looksLikeSvg (bytes : Bytes) : Bool :=
  Text.contains "<svg" (Bytes.lossyText (bytes.take 512))

/-- The content type of a picture: the one the sender reports, if any, or else that of its bytes. -/
def contentType (bytes : Bytes) (reported : Option String) : String :=
  match reported.filter (· ≠ "") with
  | some type => type
  | none =>
    match signedType? bytes with
    | some type => type
    | none => if looksLikeSvg bytes then "image/svg+xml" else "application/octet-stream"

end DesignCompiler.Picture

import DesignCompiler.Bytes.Base64
import DesignCompiler.Options.Basic

namespace DesignCompiler.Assets

structure Emitted where
  fileName : String
  bytes : Bytes
  contentType : String
  deriving Repr, DecidableEq

inductive Reference where
  | remote (url : String)
  | file (url : String) (asset : Emitted)
  | inline (url : String)
  deriving Repr, DecidableEq

namespace Reference

def fileStem (key : String) : String :=
  .ofList (key.toList.map fun c => if c.isAlphanum then c else '-')

def extension (contentType : String) : String :=
  if contentType = "image/svg+xml" then "svg"
  else if contentType = "image/jpeg" then "jpg"
  else if contentType = "image/gif" then "gif"
  else if contentType = "image/webp" then "webp"
  else "png"

def fileName (key contentType : String) : String :=
  fileStem key ++ "." ++ extension contentType

def dataUrl (bytes : Bytes) (contentType : String) : String :=
  "data:" ++ contentType ++ ";base64," ++ bytes.toBase64

/-- The reference to an asset in the image mode of the options; an asset without a URL of its own is
inlined where a remote one is asked for. -/
def resolve (o : Options) (key : String) (remoteUrl : Option String) (bytes : Bytes)
    (contentType : String) : Reference :=
  match o.imageMode, remoteUrl with
  | .remote, some url => .remote url
  | .file, _ =>
    let name := fileName key contentType
    .file (o.imageUrlPrefix ++ name) ⟨name, bytes, contentType⟩
  | _, _ => .inline (dataUrl bytes contentType)

def url : Reference → String
  | .remote url | .file url _ | .inline url => url

def emitted? : Reference → Option Emitted
  | .file _ asset => some asset
  | _ => none

end Reference

end DesignCompiler.Assets

import DesignCompiler.Picture.ContentType
import DesignCompiler.Picture.Gif
import DesignCompiler.Picture.Jpeg
import DesignCompiler.Picture.Png
import DesignCompiler.Picture.Webp

namespace DesignCompiler.Picture

def size? (bytes : Bytes) : Option (Nat × Nat) :=
  match signedType? bytes with
  | some "image/png" => Png.size? bytes
  | some "image/jpeg" => Jpeg.size? bytes
  | some "image/gif" => Gif.size? bytes
  | some "image/webp" => Webp.size? bytes
  | _ => none

end DesignCompiler.Picture

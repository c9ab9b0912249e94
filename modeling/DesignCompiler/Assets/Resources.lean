import DesignCompiler.Assets.Reference
import DesignCompiler.Table

namespace DesignCompiler.Assets

structure Request where
  vectors : List String := []
  images : List String := []
  masks : List String := []
  deriving Repr, DecidableEq

def Request.isEmpty (r : Request) : Bool :=
  r.vectors.isEmpty && r.images.isEmpty && r.masks.isEmpty

structure Image where
  sourceUrl : String := ""
  url : String
  bytes : Bytes := []
  contentType : String := ""
  width : Option Nat := none
  height : Option Nat := none
  deriving Repr, DecidableEq

structure Resources where
  vectors : Table String := []
  vectorUrls : Table String := []
  images : Table Image := []
  masks : Table String := []
  emitted : List Emitted := []
  deriving Repr, DecidableEq

def Resources.extend (r later : Resources) : Resources where
  vectors := Table.putAll later.vectors r.vectors
  vectorUrls := Table.putAll later.vectorUrls r.vectorUrls
  images := Table.putAll later.images r.images
  masks := Table.putAll later.masks r.masks
  emitted := r.emitted ++ later.emitted

abbrev Store := Table Bytes

def Store.persist (assets : List Emitted) (store : Store) : Store :=
  Table.putAll (assets.map fun a => (a.fileName, a.bytes)) store

end DesignCompiler.Assets

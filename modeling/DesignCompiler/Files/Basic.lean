import DesignCompiler.Bytes.Utf8

namespace DesignCompiler

structure Files (m : Type → Type) where
  read : String → m (Except String Bytes)
  write : String → Bytes → m (Except String Unit)
  makeDirectory : String → m (Except String Unit)
  isThere : String → m Bool
  isFile : String → m Bool
  list : String → m (Option (List String))

end DesignCompiler

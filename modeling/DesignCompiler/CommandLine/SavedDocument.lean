import DesignCompiler.Assets.Reference
import DesignCompiler.Files.Basic
import DesignCompiler.Files.Path
import DesignCompiler.Source.Conversation
import DesignCompiler.Source.Response

namespace DesignCompiler.CommandLine

open Json

structure SavedDocument where
  canvas : SceneNode
  descriptions : Table String

def SavedDocument.decode? (json : Json) : Option (SceneNode × Table String) := do
  let given ← record? ["document", "components"] json
  return (← required? given "document" decodeDocument?,
    ← withDefault? given "components" [] (table? decodeComponent?))

def SavedDocument.read (path : String) (body : Bytes) : Except FetchError SavedDocument := do
  let (document, descriptions) ← readResponse decode? path body
  return ⟨← canvasOf path document, descriptions⟩

namespace SavedDocument

variable {m : Type → Type} [Monad m] (files : Files m) (saved : SavedDocument)
  (assets : Option String)

def exportOf (format : ImageFormat) (id : String) : m (Option String) := do
  match assets with
  | none => return none
  | some dir =>
    let path := Files.join dir (Assets.Reference.fileStem id ++ "." ++ format.extension)
    return if ← files.isFile path then some path else none

/-- The order of texts by their characters, and of pairs by the first text that differs. -/
def comesFirst (a b : String × String) : Bool :=
  a.1 < b.1 || (a.1 = b.1 && a.2 ≤ b.2)

/-- The files of pictures that fill shapes, by name without extension; the last of a name counts. -/
def fills : m (Table String) := do
  match assets with
  | none => return []
  | some dir =>
    let dir := Files.join dir "fills"
    let names := (← files.list dir).getD []
    let entries := names.map fun name => (Files.stem name, Files.join dir name)
    return Table.ofList (entries.mergeSort comesFirst)

def answer : (q : Question) → m (Except FetchError q.Answer)
  | .canvas => return .ok saved.canvas
  | .descriptions ids =>
    return .ok (ids.filterMap fun id => (saved.descriptions.lookup id).map fun text => (id, text))
  | .exports request => do
    let urls ← request.ids.mapM fun id => do
      return (id, ← exportOf files assets request.format id)
    return .ok urls
  | .fills => return .ok (← fills files assets)
  | .fetch url => do
    match ← files.read url with
    | .ok bytes => return .ok { bytes }
    | .error message => return .error (.transport url message)

end SavedDocument

end DesignCompiler.CommandLine

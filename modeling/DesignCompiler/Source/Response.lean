import DesignCompiler.Bytes.Utf8
import DesignCompiler.Error
import DesignCompiler.Json.Parser
import DesignCompiler.Scene.Decode

namespace DesignCompiler

open Json

structure ErrorReport where
  status : Nat
  message : String

def ErrorReport.decode? (json : Json) : Option ErrorReport := do
  let given ← record? ["status", "err"] json
  return ⟨← required? given "status" (natBelow? (Nat.pow 2 16)), ← required? given "err" string?⟩

/-- Reads an answer. A report of status 400 or above is an error whatever else the answer holds. Fields
that are not asked for may be unreadable. -/
def readResponse {α : Type} (decode : Json → Option α) (target : String) (body : Bytes) :
    Except FetchError α :=
  let json := Json.readChars? (Bytes.chars body)
  match json.bind ErrorReport.decode? with
  | some ⟨status, message⟩ =>
    if 400 ≤ status then .error (.service status message) else read json
  | none => read json
where
  read (json : Option Json) : Except FetchError α :=
    match json.bind decode with
    | some a => .ok a
    | none => .error (.malformed target none)

def canvasOf (target : String) (document : SceneNode) : Except FetchError SceneNode :=
  match document.children with
  | canvas :: _ => .ok canvas
  | [] => .error (.malformed target (some "document has no canvas"))

/-- A document that is a field of an answer. All of it has to be readable. -/
def decodeDocument? (json : Json) : Option SceneNode :=
  if json.isReadable (maxLevels - 1) then SceneNode.decode? json else none

def decodeFile? (json : Json) : Option SceneNode := do
  required? (← record? ["document"] json) "document" decodeDocument?

def decodeComponent? (json : Json) : Option String := do
  withDefault? (← record? ["description"] json) "description" "" string?

def decodeComponents? (json : Json) : Option (List (String × String)) := do
  withDefault? (← record? ["components"] json) "components" [] (table? decodeComponent?)

def decodeNodes? (json : Json) : Option (List (String × Option (List (String × String)))) := do
  withDefault? (← record? ["nodes"] json) "nodes" [] (table? (nullable? decodeComponents?))

def descriptionsOf (nodes : List (String × Option (List (String × String)))) :
    List (String × String) :=
  nodes.filterMap fun (id, components) => do return (id, ← (← components).lookup id)

def decodeExports? (json : Json) : Option (List (String × Option String)) := do
  withDefault? (← record? ["images"] json) "images" [] (table? (nullable? string?))

def decodeFills? (json : Json) : Option (List (String × String)) := do
  withDefault? (← record? ["meta"] json) "meta" [] fun fills => do
    withDefault? (← record? ["images"] fills) "images" [] (table? string?)

end DesignCompiler

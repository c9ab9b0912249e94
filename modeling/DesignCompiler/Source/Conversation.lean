import DesignCompiler.Bytes.Utf8
import DesignCompiler.Error
import DesignCompiler.Options.Basic
import DesignCompiler.Scene.Basic

namespace DesignCompiler

structure ExportRequest where
  ids : List String
  format : ImageFormat
  scale : Float
  /-- Whether the picture has the bounds of the whole node, or only those of what is painted. -/
  absoluteBounds : Bool
  deriving Repr, DecidableEq

def ExportRequest.svg (ids : List String) (absoluteBounds : Bool) : ExportRequest :=
  { ids, format := .svg, scale := 1, absoluteBounds }

def ExportRequest.raster (ids : List String) (format : ImageFormat) (scale : Float) :
    ExportRequest :=
  { ids, format, scale, absoluteBounds := true }

structure Resource where
  bytes : Bytes
  contentType : Option String := none
  deriving Repr, DecidableEq

inductive Question where
  | canvas
  | descriptions (ids : List String)
  | exports (request : ExportRequest)
  | fills
  | fetch (url : String)
  deriving Repr, DecidableEq

abbrev Question.Answer : Question → Type
  | .canvas => SceneNode
  | .descriptions _ => Table String
  | .exports _ => Table (Option String)
  | .fills => Table String
  | .fetch _ => Resource

abbrev Source := (q : Question) → Except FetchError q.Answer

/-- What is asked in which order, where each question may depend on the answers so far. The same conversation can be
held with any source of answers. -/
inductive Conversation (α : Type) where
  | done (result : α)
  | ask (q : Question) (next : Except FetchError q.Answer → Conversation α)

namespace Conversation

variable {α β : Type}

def bind (c : Conversation α) (f : α → Conversation β) : Conversation β :=
  match c with
  | .done a => f a
  | .ask q next => .ask q fun answer => (next answer).bind f

instance : Monad Conversation where
  pure := .done
  bind := bind

/-- Asks and takes the answer as it is, be it an error. -/
def pose (q : Question) : Conversation (Except FetchError q.Answer) := .ask q .done

def run (source : Source) : Conversation α → List Question × α
  | .done a => ([], a)
  | .ask q next =>
    let (asked, a) := (next (source q)).run source
    (q :: asked, a)

def runM {m : Type → Type} [Monad m] (answer : (q : Question) → m (Except FetchError q.Answer)) :
    Conversation α → m α
  | .done a => pure a
  | .ask q next => do (next (← answer q)).runM answer

end Conversation

abbrev Asking := ExceptT FetchError Conversation

def Question.ask (q : Question) : Asking q.Answer := ExceptT.mk (.pose q)

end DesignCompiler

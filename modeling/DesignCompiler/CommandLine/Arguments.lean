import DesignCompiler.Table
import DesignCompiler.Text.Basic

namespace DesignCompiler.CommandLine

structure Arguments where
  document : String
  assets : Option String := none
  out : Option String := none
  preset : String := "default"
  options : Option String := none
  deriving Repr, DecidableEq

inductive Refusal where
  | help
  | misuse
  deriving Repr, DecidableEq

def optionNames : List String := ["document", "assets", "out", "preset", "options"]

def isOption (argument : String) : Bool := Text.startsWith "-" argument && argument ≠ "-"

/-- Only the name of a preset may be empty. -/
def isValue (name value : String) : Bool := name = "preset" || value ≠ ""

def giveOption (name value : String) (given : Table String) : Except Refusal (Table String) :=
  if optionNames.contains name && !Table.contains name given && isValue name value then
    .ok (Table.put name value given)
  else .error .misuse

def readOptions (given : Table String) : List String → Except Refusal (Table String)
  | [] => .ok given
  | argument :: rest =>
    match Text.strip? "--" argument with
    | none => .error (if Text.startsWith "-h" argument then .help else .misuse)
    | some "" => if rest.isEmpty then .ok given else .error .misuse
    | some "help" => .error .help
    | some option =>
      match Text.splitOnce? "=" option with
      | some (name, value) => do readOptions (← giveOption name value given) rest
      | none =>
        match rest with
        | [] => .error .misuse
        | value :: rest => do
          if isOption value then throw .misuse
          readOptions (← giveOption option value given) rest

def optionVariables : Table String := [("out", "SPROUT_OUT_DIR"), ("preset", "SPROUT_PRESET")]

def readEnvironment (environment : Table String) (given : Table String) :
    Except Refusal (Table String) :=
  optionVariables.foldlM (fun given (name, source) =>
    match environment.lookup source with
    | some value => if Table.contains name given then .ok given else giveOption name value given
    | none => .ok given) given

def Arguments.ofOptions (given : Table String) : Except Refusal Arguments :=
  match given.lookup "document" with
  | none => .error .misuse
  | some document => .ok {
      document, assets := given.lookup "assets", out := given.lookup "out"
      preset := (given.lookup "preset").getD "default", options := given.lookup "options" }

def Arguments.parse (environment : Table String) : List String → Except Refusal Arguments
  | "compile" :: rest => do
    ofOptions (← readEnvironment environment (← readOptions [] rest))
  | ["help"] | ["help", "compile"] | ["help", "help"] => .error .help
  | "--help" :: _ | "--version" :: _ => .error .help
  | argument :: _ =>
    .error (if Text.startsWith "-h" argument || Text.startsWith "-V" argument then .help else .misuse)
  | [] => .error .misuse

end DesignCompiler.CommandLine

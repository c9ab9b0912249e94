import DesignCompiler.Decimal.Shortest

namespace DesignCompiler

inductive FetchError where
  | service (status : Nat) (message : String)
  | transport (target message : String)
  /-- An answer does not have the expected shape; no message stands for one of a reader. -/
  | malformed (target : String) (message : Option String)
  deriving Repr, DecidableEq

inductive MarkupError where
  | parse (node : String)
  | elementNotFound (node element : String)
  | emptyDocument (node : String)
  /-- The root is closed twice, which no reading survives. -/
  | closedTwice (node : String)
  deriving Repr, DecidableEq

inductive ConfigError where
  | missing (option : String)
  | invalidClassPrefix (value : String)
  | repeatedDelimiter (option value : String)
  | invalidInstanceSuffix (value : String)
  | invalidImageScale (value : Float)
  | unknownPreset (name : String)
  deriving Repr, DecidableEq

inductive CompileError where
  | recursiveComponent (name : String)
  | nodeNotFound (index : Nat)
  deriving Repr, DecidableEq

inductive DesignError where
  | fetch (e : FetchError)
  | markup (e : MarkupError)
  | config (e : ConfigError)
  | compile (e : CompileError)
  deriving Repr, DecidableEq

def FetchError.message : FetchError → String
  | .service status message => s!"Design API error (status {status}): {message}"
  | .transport target message => s!"Transport error fetching {target}: {message}"
  | .malformed target message => s!"Malformed response from {target}: " ++ message.getD ""

def MarkupError.message : MarkupError → String
  | .parse node => s!"Invalid markup for node {node}: "
  | .elementNotFound node element => s!"Element '{element}' not found in markup for node {node}"
  | .emptyDocument node => s!"Markup for node {node} has no root element"
  | .closedTwice node => s!"Markup for node {node} closes its root twice"

def MarkupError.endsRun : MarkupError → Bool
  | .closedTwice _ => true
  | _ => false

def ConfigError.invalid (option reason : String) : String :=
  s!"Invalid value for option '{option}': {reason}"

def ConfigError.message : ConfigError → String
  | .missing option => s!"Missing required option: {option}"
  | .invalidClassPrefix value =>
    invalid "classPrefix" s!"'{value}' is not a valid class name prefix"
  | .repeatedDelimiter option value => invalid option s!"'{value}' is used by another delimiter"
  | .invalidInstanceSuffix value =>
    invalid "instanceSuffix" s!"'{value}' is not an identifier suffix"
  | .invalidImageScale value =>
    invalid "imageScale" s!"{Decimal.plain value} is not a positive scale"
  | .unknownPreset name => s!"Unknown preset: {name}"

def CompileError.message : CompileError → String
  | .recursiveComponent name => s!"Component '{name}' references itself"
  | .nodeNotFound index => s!"Node not found: #{index}"

def DesignError.message : DesignError → String
  | .fetch e => e.message
  | .markup e => e.message
  | .config e => e.message
  | .compile e => e.message

end DesignCompiler

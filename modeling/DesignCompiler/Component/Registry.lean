import DesignCompiler.Component.Rendered
import DesignCompiler.Error

namespace DesignCompiler

structure Component where
  name : String
  instanceName : String
  fileName : String
  root : Nat
  body : Rendered
  scope : Scope
  description : Option String
  deriving Repr

namespace Component

variable (c : Component)

def markup : String := c.body.print c.scope.classPrefix

def styles : String := c.scope.sheet c.description

def asImport : Import := ⟨c.name, c.fileName⟩

end Component

structure Registry where
  components : Table Component := []
  building : List String := []
  deriving Repr

/-- A step that may use and extend the registry, which keeps its changes when the step fails. -/
abbrev Registering := ExceptT DesignError (StateM Registry)

namespace Registry

/-- The component of a name: the one that is there, or else the result of a build. A name whose build
has begun cannot be built again inside of it. -/
def buildOnce (name : String) (build : Registering Component) : Registering Component := do
  let registry ← get
  match registry.components.lookup name with
  | some component => return component
  | none =>
    if name ∈ registry.building then throw (.compile (.recursiveComponent name))
    set { registry with building := registry.building ++ [name] }
    let result ← ExceptT.lift build.run
    modify fun r => { r with building := r.building.filter (· ≠ name) }
    let component ← (result : Except DesignError Component)
    modify fun r => { r with components := Table.put name component r.components }
    return component

end Registry

end DesignCompiler

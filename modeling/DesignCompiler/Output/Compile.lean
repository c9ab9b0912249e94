import DesignCompiler.Assets.Resolve
import DesignCompiler.Component.Build
import DesignCompiler.Output.Source
import DesignCompiler.Tree.Normalize

namespace DesignCompiler

structure Compilation where
  components : List Component := []
  files : List Output.GeneratedFile := []
  assets : List Assets.Emitted := []

def Compilation.component? (name : String) (c : Compilation) : Option Component :=
  c.components.find? (·.name = name)

structure Compiler where
  options : Options := {}
  plugins : PluginSet := {}
  rasterize : Picture.Rasterizer

abbrev Run := ExceptT DesignError Conversation

def Asking.toRun {α : Type} (a : Asking α) : Run α :=
  ExceptT.mk ((fun r : Except FetchError α => r.mapError .fetch) <$> a.run)

def buildAll (ctx : Context) : Registering Unit :=
  ctx.forest.roots.forM fun root => discard (buildComponent ctx root)

namespace Compiler

variable (c : Compiler)

def checkOptions : Run Unit := ExceptT.mk (pure (c.options.validate.mapError .config))

/-- Descriptions by id. Where no node can have one, none are asked for. -/
def descriptions (ids : List String) : Asking (Table String) :=
  if ids.isEmpty then return [] else Question.ask (.descriptions ids)

def resources (request : Assets.Request) : Run Assets.Resources :=
  let resolver : Assets.Resolver := ⟨c.options, c.rasterize⟩
  ExceptT.mk (Prod.fst <$> resolver.resolve request {})

def emit (scene : NormalizedScene) (descriptions : Table String) (resources : Assets.Resources) :
    Except DesignError Compilation :=
  let ctx : Context :=
    { forest := scene.forest, options := c.options, resources, descriptions, plugins := c.plugins }
  let (result, registry) := (buildAll ctx).run {}
  let components := registry.components.values
  result.map fun _ =>
    { components
      files := components.flatMap fun d => (Output.ComponentText.ofComponent d).files c.options
      assets := resources.emitted }

/-- The canvas is normalized, descriptions and assets are asked for, and every component is built. -/
def compileCanvas (canvas : SceneNode) : Run Compilation := do
  c.checkOptions
  let scene := NormalizedScene.ofCanvas c.options canvas
  let descriptions ← (descriptions scene.descriptions).toRun
  let resources ← c.resources scene.request
  ExceptT.mk (pure (c.emit scene descriptions resources))

def compile : Run Compilation := do
  c.checkOptions
  let canvas ← (Question.ask .canvas).toRun
  c.compileCanvas canvas

end Compiler

end DesignCompiler

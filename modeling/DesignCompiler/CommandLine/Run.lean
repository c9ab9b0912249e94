import DesignCompiler.CommandLine.Arguments
import DesignCompiler.CommandLine.SavedDocument
import DesignCompiler.Json.Parser
import DesignCompiler.Options.Json
import DesignCompiler.Output.Compile
import DesignCompiler.Picture.Drawing

namespace DesignCompiler.CommandLine

inductive Failure where
  | readOptions (path : String)
  | parseOptions (path : String)
  | invalidOptions (path : String)
  | openDocument (path : String)
  | makeDirectory (path : String)
  | writeFile (path : String)
  | writeAssets (directory : String)
  | design (e : DesignError)
  deriving Repr, DecidableEq

def Failure.message : Failure → String
  | .readOptions path => s!"read options '{path}'"
  | .parseOptions path => s!"parse options '{path}'"
  | .invalidOptions path => s!"invalid options in '{path}'"
  | .openDocument path => s!"open document '{path}'"
  | .makeDirectory path => s!"create output dir '{path}'"
  | .writeFile path => s!"write '{path}'"
  | .writeAssets directory => s!"write assets to '{directory}'"
  | .design e => e.message

def orFail {ε α : Type} (failure : Failure) (result : Except ε α) : Except Failure α :=
  result.mapError fun _ => failure

/-- Options laid over those of a preset; what the text does not mention stays. -/
def layerOptions (path : String) (base : Options) (body : Bytes) : Except Failure Options :=
  match (Bytes.text? body).bind Json.parse? with
  | none => .error (.parseOptions path)
  | some layer =>
    match Options.decode? (base.encode.overlay layer.distinct) with
    | none => .error (.invalidOptions path)
    | some o => .ok o

section

variable {m : Type → Type} [Monad m] (files : Files m)

/-- The options of a run: the preset, then the file of options, then the output directory. -/
def loadOptions (a : Arguments) : ExceptT Failure m Options := do
  let base ← (Options.ofPreset a.preset).mapError fun e => Failure.design (.config e)
  let layered ← match a.options with
    | none => pure base
    | some path => do
      let body ← orFail (.readOptions path) (← files.read path)
      layerOptions path base body
  let o := { layered with outDir := a.out.getD layered.outDir }
  (o.validate).mapError fun e => Failure.design (.config e)
  return o

def openDocument (path : String) : ExceptT Failure m SavedDocument := do
  let body ← orFail (.openDocument path) (← files.read path)
  orFail (.openDocument path) (SavedDocument.read path body)

/-- Writes source files. One that must not be replaced is kept if it is there. -/
def writeFiles (generated : List Output.GeneratedFile) : ExceptT Failure m Unit :=
  generated.forM fun file => do
    if !file.overwrite && (← files.isThere file.path) then return
    let directory := Files.parent file.path
    orFail (.makeDirectory directory) (← files.makeDirectory directory)
    orFail (.writeFile file.path) (← files.write file.path (Bytes.ofString file.content))

def writeAssets (directory : String) (assets : List Assets.Emitted) : ExceptT Failure m Unit :=
  assets.forM fun asset => do
    orFail (.writeAssets directory) (← files.makeDirectory directory)
    orFail (.writeAssets directory) (← files.write (Files.join directory asset.fileName) asset.bytes)

/-- A run draws the masks that it has no picture of; if nothing is said, they stay blank. -/
def run (a : Arguments) (rasterize : Picture.Rasterizer := Picture.rasterize) : ExceptT Failure m Unit := do
  let o ← loadOptions files a
  let saved ← openDocument files a.document
  let compiler : Compiler := { options := o, rasterize }
  let output ← ExceptT.adapt Failure.design
    (ExceptT.mk (compiler.compile.run.runM (SavedDocument.answer files saved a.assets)))
  writeFiles files output.files
  writeAssets files o.imageDir output.assets

end

end DesignCompiler.CommandLine

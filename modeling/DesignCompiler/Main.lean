import DesignCompiler.CommandLine.Run

namespace DesignCompiler.CommandLine

def attempt {α : Type} (action : IO α) : IO (Except String α) :=
  tryCatch (Except.ok <$> action) fun e => return .error (toString e)

def succeeds {α : Type} (action : IO α) : IO Bool := return (← attempt action).isOk

/-- The files of the system. A directory can be opened, but it holds no bytes. -/
def systemFiles : Files IO where
  read path := attempt do return (← IO.FS.readBinFile path).toList
  write path bytes := attempt (IO.FS.writeBinFile path ⟨bytes.toArray⟩)
  makeDirectory path := attempt do
    if path ≠ "" then IO.FS.createDirAll path
  isThere path := succeeds (IO.FS.Handle.mk path .read)
  isFile path := succeeds do (← IO.FS.Handle.mk path .read).read 1
  list path := return match ← attempt do (← IO.FS.realPath path).readDir with
    | .ok entries => some (entries.toList.map (·.fileName))
    | .error _ => none

def usage : String :=
  "Usage: design-compiler compile --document <FILE> [--assets <DIR>] [--out <DIR>] "
    ++ "[--preset <NAME>] [--options <FILE>]"

def readVariables : IO (Table String) :=
  optionVariables.values.filterMapM fun name => do return (← IO.getEnv name).map fun value => (name, value)

def program (arguments : List String) : IO UInt32 := do
  match Arguments.parse (← readVariables) arguments with
  | .error .help =>
    IO.println usage
    return 0
  | .error .misuse =>
    IO.eprintln usage
    return 2
  | .ok a =>
    match ← (run systemFiles a Picture.rasterize).run with
    | .ok () => return 0
    | .error failure =>
      IO.eprintln ("Error: " ++ failure.message)
      return 1

end DesignCompiler.CommandLine

def main (arguments : List String) : IO UInt32 :=
  DesignCompiler.CommandLine.program arguments

import DesignCompiler.Text.Basic

namespace DesignCompiler.Files

def isAbsolute (path : String) : Bool := path.toList.head? = some '/'

/-- A path taken from a directory; an absolute one stays as it is. -/
def join (dir path : String) : String :=
  if isAbsolute path || dir = "" || dir.toList.getLast? = some '/' then
    (if isAbsolute path then path else dir ++ path)
  else dir ++ "/" ++ path

def dropSlashes : List Char → List Char
  | '/' :: c :: rest => dropSlashes (c :: rest)
  | '.' :: '/' :: rest => dropSlashes ('/' :: rest)
  | path => path

def parent (path : String) : String :=
  .ofList (dropSlashes (path.toList.reverse.dropWhile (· ≠ '/'))).reverse

/-- The name at the end of a path without its extension; a dot in front begins no extension. -/
def stem (name : String) : String :=
  match name.toList.reverse.dropWhile (· ≠ '.') with
  | _ :: c :: rest => .ofList (c :: rest).reverse
  | _ => name

/-- The parts of a path. A slash in front is a part of its own; two dots take the part before them
back. -/
def parts (path : String) : List String :=
  (Text.split "/" path).foldl (fun parts part =>
      if part = "" || part = "." then parts
      else if part = ".." then parts.dropLast
      else parts ++ [part])
    (if isAbsolute path then ["/"] else [])

def isDirectoryPath (path : String) : Bool :=
  match (Text.split "/" path).getLast? with
  | some last => last = "" || last = "." || last = ".."
  | none => true

end DesignCompiler.Files

import DesignCompiler.Files.Basic
import DesignCompiler.Files.Path
import DesignCompiler.Table

namespace DesignCompiler

/-- Files by the parts of their paths joined by slashes. A directory is there if some file lies in it; a new one only
has to be possible. -/
abbrev FileTable := Table Bytes

namespace FileTable

def key (path : String) : String := "/".intercalate (Files.parts path)

def file? (path : String) (t : FileTable) : Option Bytes :=
  if Files.isDirectoryPath path then none else t.lookup (key path)

def below (path : String) (t : FileTable) : List (List String) :=
  let dir := Files.parts path
  (t.keys.map Files.parts).filterMap fun file =>
    if dir.isPrefixOf file && dir.length < file.length then some (file.drop dir.length) else none

/-- The directory in which a run begins is always there. -/
def isDirectory (path : String) (t : FileTable) : Bool :=
  (path ≠ "" && (Files.parts path).isEmpty) || !(below path t).isEmpty

/-- Whether a file stands where the path needs a directory. -/
def isBlocked (path : String) (t : FileTable) : Bool :=
  let dir := Files.parts path
  (t.keys.map Files.parts).any fun file => file.isPrefixOf dir && file.length < dir.length

def notFound : String := "No such file or directory (os error 2)"

def notDirectory : String := "Not a directory (os error 20)"

def isADirectory : String := "Is a directory (os error 21)"

def fileExists : String := "File exists (os error 17)"

def read (path : String) (t : FileTable) : Except String Bytes :=
  match file? path t with
  | some bytes => .ok bytes
  | none =>
    if isDirectory path t then .error isADirectory
    else if isBlocked path t || (t.lookup (key path)).isSome then .error notDirectory
    else .error notFound

def write (path : String) (bytes : Bytes) (t : FileTable) : Except String FileTable :=
  if isDirectory path t || Files.isDirectoryPath path then .error isADirectory
  else if isBlocked path t then .error notDirectory
  else .ok (Table.put (key path) bytes t)

def makeDirectory (path : String) (t : FileTable) : Except String Unit :=
  if (t.lookup (key path)).isSome then .error fileExists
  else if isBlocked path t then .error notDirectory
  else .ok ()

def list? (path : String) (t : FileTable) : Option (List String) :=
  if isDirectory path t then some ((below path t).filterMap List.head?).eraseDups else none

def asFiles : Files (StateM FileTable) where
  read path := return read path (← get)
  write path bytes := do
    match write path bytes (← get) with
    | .ok t =>
      set t
      return .ok ()
    | .error e => return .error e
  makeDirectory path := return makeDirectory path (← get)
  isThere path := do
    let t ← get
    return (file? path t).isSome || isDirectory path t
  isFile path := return (file? path (← get)).isSome
  list path := return list? path (← get)

end FileTable

end DesignCompiler

import DesignCompiler.Xml.Tree

namespace DesignCompiler.Xml

def skipMisc? : (fuel : Nat) → List Char → Option (List Char)
  | 0, s => some s
  | fuel + 1, s =>
    match skipSpaces s with
    | '<' :: '!' :: '-' :: '-' :: rest => (skipComment? rest).bind (skipMisc? fuel)
    | '<' :: '?' :: rest => (skipInstruction? rest).bind (skipMisc? fuel)
    | rest => some rest

/-- Skips the blanks between two parts of a declaration; none are needed before its end. -/
def betweenParts? (s : List Char) : Option (List Char) :=
  match s with
  | '?' :: '>' :: _ | [] => some s
  | _ => needSpaces? s

def skipPart? (name : String) (s : List Char) : Option (List Char) :=
  if name.toList.isPrefixOf s then (takeAttribute? s).bind fun (_, rest) => betweenParts? rest
  else some s

def skipDeclaration? (s : List Char) : Option (List Char) := do
  let s ← betweenParts? s
  if !"version".toList.isPrefixOf s then none
  let s ← skipPart? "version" s
  let s ← skipPart? "encoding" s
  let s ← if "standalone".toList.isPrefixOf s then (takeAttribute? s).map Prod.snd else some s
  need? "?>" (skipSpaces s)

def skipExternal? (s : List Char) : Option (Bool × List Char) :=
  if "SYSTEM".toList.isPrefixOf s then do
    let (_, s) ← takeQuoted? (← needSpaces? (s.drop 6))
    return (true, s)
  else if "PUBLIC".toList.isPrefixOf s then do
    let (_, s) ← takeQuoted? (← needSpaces? (s.drop 6))
    let (_, s) ← takeQuoted? (← needSpaces? s)
    return (true, s)
  else some (false, s)

/-- What an entity stands for: a quoted text, or something outside the document, which is not read.
-/
def takeDefinition? (general : Bool) (s : List Char) : Option (Option (List Char) × List Char) :=
  match s with
  | '"' :: _ | '\'' :: _ => (takeQuoted? s).map fun (value, rest) => (some value, rest)
  | _ => do
    let (external, s) ← skipExternal? s
    if !external then none
    let afterSpaces := skipSpaces s
    if general && "NDATA".toList.isPrefixOf afterSpaces then
      let (_, rest) ← takeName? (← needSpaces? (afterSpaces.drop 5))
      return (none, rest)
    else return (none, s)

def takeEntity? (s : List Char) : Option (Entities × List Char) := do
  let s ← needSpaces? s
  let (general, s) ← match s with
    | '%' :: rest => (needSpaces? rest).map fun rest => (false, rest)
    | _ => some (true, s)
  let (name, s) ← takeName? s
  let (value, s) ← takeDefinition? general (← needSpaces? s)
  let rest ← need? ">" (skipSpaces s)
  return (value.toList.map fun v => (name, v), rest)

def takeSubset? : (fuel : Nat) → List Char → Option (Entities × List Char)
  | 0, s => some ([], s)
  | fuel + 1, s =>
    let s := skipSpaces s
    if "<!ENTITY".toList.isPrefixOf s then do
      let (entities, rest) ← takeEntity? (s.drop 8)
      let (more, rest) ← takeSubset? fuel rest
      return (entities ++ more, rest)
    else if "<!ELEMENT".toList.isPrefixOf s || "<!ATTLIST".toList.isPrefixOf s
        || "<!NOTATION".toList.isPrefixOf s then
      match s.dropWhile (· != '>') with
      | _ :: rest => takeSubset? fuel rest
      | [] => none
    else
      match s with
      | '<' :: '!' :: '-' :: '-' :: rest => (skipComment? rest).bind (takeSubset? fuel)
      | '<' :: '?' :: rest => (skipInstruction? rest).bind (takeSubset? fuel)
      | ']' :: rest => (need? ">" (skipSpaces rest)).map fun rest => ([], rest)
      | _ => none

def takeDoctype? (s : List Char) : Option (Entities × List Char) := do
  let (_, s) ← takeName? (← needSpaces? s)
  let (_, s) ← skipExternal? (skipSpaces s)
  match skipSpaces s with
  | '>' :: rest => return ([], rest)
  | '[' :: rest => takeSubset? (rest.length + 1) rest
  | _ => none

def takeProlog? (s : List Char) : Option (Entities × List Char) := do
  let s ← skipMisc? s.length s
  if "<!DOCTYPE".toList.isPrefixOf s then
    let (entities, rest) ← takeDoctype? (s.drop 9)
    return (entities, ← skipMisc? rest.length rest)
  else return ([], s)

/-- The entities of a document and its content from the first tag on, without that tag's first
character. -/
def takeStart? (s : String) : Option (Entities × List Char) := do
  let chars := s.toList
  let chars := if chars.head? = some '\uFEFF' then chars.drop 1 else chars
  let chars ← if "<?xml ".toList.isPrefixOf chars then skipDeclaration? (chars.drop 5) else some chars
  let (entities, chars) ← takeProlog? chars
  match skipSpaces chars with
  | '<' :: rest => return (entities, rest)
  | _ => none

def isMisc (s : List Char) : Bool := (skipMisc? s.length s).any fun rest => (skipSpaces rest).isEmpty

def parse (s : String) : Except Failure Element := do
  let (entities, rest) ← orMalformed (takeStart? s)
  let (first, rest) ← orMalformed (takeOpening? (rest.length + 1) rest)
  let level := match first with
    | .opening _ _ false => 1
    | _ => 0
  let (tokens, rest) := takeContent (rest.length + 1) level rest
  let after := if isMisc rest then [] else [.malformed]
  let built ← readContent entities maxDepth (first :: tokens ++ after) {}
  if built.frames.isEmpty then orMalformed built.root else throw .malformed

end DesignCompiler.Xml

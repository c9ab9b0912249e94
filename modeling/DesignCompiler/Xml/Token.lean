import DesignCompiler.Xml.Name

namespace DesignCompiler.Xml

structure RawAttribute where
  name : QName
  value : List Char

inductive Token where
  | opening (name : QName) (attributes : List RawAttribute) (empty : Bool)
  | unfinished (name : QName) (attributes : List RawAttribute)
  | closing (name : QName)
  | text (raw : List Char)
  | characterData (raw : List Char)
  | gap
  | malformed

def skipComment? (s : List Char) : Option (List Char) := do
  let (text, rest) ← takeUntil? ['-', '-', '>'] s
  if (takeUntil? ['-', '-'] (text ++ ['-'])).isSome then none else some rest

/-- A processing instruction after its opening mark; the name of the declaration is not allowed. -/
def skipInstruction? (s : List Char) : Option (List Char) := do
  if "xml ".toList.isPrefixOf s then none
  let (_, rest) ← takeName? s
  let (_, rest) ← takeUntil? ['?', '>'] (skipSpaces rest)
  return rest

def takeAttribute? (s : List Char) : Option (RawAttribute × List Char) := do
  let (name, s) ← takeQName? s
  let s ← need? "=" (skipSpaces s)
  let (quote, s) ← takeQuote? (skipSpaces s)
  let (value, rest) ← takeUntil? [quote] s
  if value.contains '<' then none else some (⟨name, value⟩, rest)

inductive TagEnd where
  | openTag | emptyTag
  | cutOff

def takeAttributes? : (fuel : Nat) → List Char → Option (List RawAttribute × TagEnd × List Char)
  | 0, _ => none
  | _ + 1, [] => some ([], .cutOff, [])
  | fuel + 1, s =>
    match skipSpaces s with
    | [] => none
    | '/' :: rest => (need? ">" rest).map fun rest => ([], .emptyTag, rest)
    | '>' :: rest => some ([], .openTag, rest)
    | rest =>
      if s.head?.any isSpace then do
        let (first, rest) ← takeAttribute? rest
        let (more, close, rest) ← takeAttributes? fuel rest
        return (first :: more, close, rest)
      else none

/-- An opening tag after its first character; it has fewer than `fuel` attributes. -/
def takeOpening? (fuel : Nat) (s : List Char) : Option (Token × List Char) := do
  let (name, s) ← takeQName? s
  let (attributes, close, rest) ← takeAttributes? fuel s
  match close with
  | .openTag => return (.opening name attributes false, rest)
  | .emptyTag => return (.opening name attributes true, rest)
  | .cutOff => return (.unfinished name attributes, rest)

def takeClosing? (s : List Char) : Option (Token × List Char) := do
  let (name, s) ← takeQName? s
  return (.closing name, ← need? ">" (skipSpaces s))

def takeText? (s : List Char) : Option (Token × List Char) :=
  let text := s.takeWhile (· != '<')
  if text.all isChar && (takeUntil? [']', ']', '>'] text).isNone then
    some (.text text, s.dropWhile (· != '<'))
  else none

def takeToken? (fuel : Nat) : List Char → Option (Token × List Char)
  | '<' :: '!' :: '-' :: '-' :: s => (skipComment? s).map fun rest => (.gap, rest)
  | '<' :: '!' :: '[' :: 'C' :: 'D' :: 'A' :: 'T' :: 'A' :: '[' :: s =>
    (takeUntil? [']', ']', '>'] s).map fun (text, rest) => (.characterData text, rest)
  | '<' :: '!' :: _ => none
  | '<' :: '?' :: s => (skipInstruction? s).map fun rest => (.gap, rest)
  | '<' :: '/' :: s => takeClosing? s
  | ['<'] => none
  | '<' :: s => takeOpening? fuel s
  | s => takeText? s

/-- The tokens of content inside `level` open elements, up to the tag that closes the outermost of
them, and what follows that tag; the text may also end before. A token takes at least one character, so
that a `fuel` above the length of the text is enough. -/
def takeContent : (fuel level : Nat) → List Char → List Token × List Char
  | _, 0, s => ([], s)
  | _, _, [] => ([], [])
  | 0, _, _ => ([.malformed], [])
  | fuel + 1, level + 1, s =>
    match takeToken? (fuel + 1) s with
    | none => ([.malformed], [])
    | some (token, rest) =>
      let next := match token with
        | .opening _ _ false => level + 2
        | .closing _ => level
        | _ => level + 1
      let (tokens, rest) := takeContent fuel next rest
      (token :: tokens, rest)

end DesignCompiler.Xml

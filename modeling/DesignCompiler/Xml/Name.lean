namespace DesignCompiler.Xml

def isSpace (c : Char) : Bool := c = ' ' || c = '\t' || c = '\n' || c = '\r'

def isChar (c : Char) : Bool :=
  if c.toNat < 0x20 then isSpace c else c.toNat != 0xFFFE && c.toNat != 0xFFFF

def nameStartRanges : List (Nat × Nat) :=
  [(0xC0, 0xD6), (0xD8, 0xF6), (0xF8, 0x2FF), (0x370, 0x37D), (0x37F, 0x1FFF), (0x200C, 0x200D),
    (0x2070, 0x218F), (0x2C00, 0x2FEF), (0x3001, 0xD7FF), (0xF900, 0xFDCF), (0xFDF0, 0xFFFD),
    (0x10000, 0xEFFFF)]

def isNameStart (c : Char) : Bool :=
  c.isAlpha || c = ':' || c = '_'
    || nameStartRanges.any fun (low, high) => low ≤ c.toNat && c.toNat ≤ high

def isNameChar (c : Char) : Bool :=
  isNameStart c || c.isDigit || c = '-' || c = '.' || c.toNat = 0xB7
    || (0x300 ≤ c.toNat && c.toNat ≤ 0x36F) || (0x203F ≤ c.toNat && c.toNat ≤ 0x2040)

def skipSpaces (s : List Char) : List Char := s.dropWhile isSpace

def needSpaces? : List Char → Option (List Char)
  | c :: s => if isSpace c then some (skipSpaces s) else none
  | [] => none

def takeName? : List Char → Option (List Char × List Char)
  | c :: s => if isNameStart c then some (c :: s.takeWhile isNameChar, s.dropWhile isNameChar) else none
  | [] => none

/-- A name as it is written: the mark of its namespace, which may be empty, and its local part. -/
structure QName where
  space : List Char
  part : List Char
  deriving DecidableEq

def isPart : List Char → Bool
  | [] => false
  | c :: _ => isNameStart c

/-- A qualified name. A second colon is refused. -/
def takeQName? (s : List Char) : Option (QName × List Char) :=
  let isPartChar (c : Char) := c != ':' && isNameChar c
  let first := s.takeWhile isPartChar
  match s.dropWhile isPartChar with
  | ':' :: rest =>
    let part := rest.takeWhile isPartChar
    let rest := rest.dropWhile isPartChar
    if rest.head? = some ':' || !(first.isEmpty || isPart first) || !isPart part then none
    else some (⟨first, part⟩, rest)
  | rest => if isPart first then some (⟨[], first⟩, rest) else none

/-- The text before the first occurrence of `mark`, all of it characters of a document, and the text
after that occurrence. -/
def takeUntil? (mark : List Char) : List Char → Option (List Char × List Char)
  | [] => none
  | c :: s =>
    if mark.isPrefixOf (c :: s) then some ([], (c :: s).drop mark.length)
    else if isChar c then (takeUntil? mark s).map fun (before, rest) => (c :: before, rest)
    else none

def need? (mark : String) (s : List Char) : Option (List Char) :=
  if mark.toList.isPrefixOf s then some (s.drop mark.toList.length) else none

def takeQuote? : List Char → Option (Char × List Char)
  | '"' :: s => some ('"', s)
  | '\'' :: s => some ('\'', s)
  | _ => none

def takeQuoted? (s : List Char) : Option (List Char × List Char) := do
  let (quote, s) ← takeQuote? s
  match s.dropWhile (· != quote) with
  | _ :: rest => return (s.takeWhile (· != quote), rest)
  | [] => none

end DesignCompiler.Xml

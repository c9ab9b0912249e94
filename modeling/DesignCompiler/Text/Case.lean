import DesignCompiler.Text.CaseTable

namespace DesignCompiler.Text

open CaseTable

def isCased (c : Char) : Bool := casedRuns.any fun r => (ofTriple r).contains c.toNat

def isCaseIgnorable (c : Char) : Bool :=
  caseIgnorableRuns.any fun r => (ofTriple r).contains c.toNat

/-- The form of `c` that the tables give: its spelling, else its shifted code point, else itself. -/
def recase (spellings : List (Nat × List Nat)) (shifts : List (Nat × Nat × Nat × Int)) (c : Char) :
    List Char :=
  match spellings.lookup c.toNat with
  | some spelling => spelling.map Char.ofNat
  | none =>
    match shifts.find? fun s => (ofQuadruple s).contains c.toNat with
    | some s => [Char.ofNat (Int.toNat (c.toNat + (ofQuadruple s).shift))]
    | none => [c]

def lowerForm (c : Char) : List Char :=
  if c.toNat < 0x80 then [c.toLower] else recase toLowerSpellings toLowerShifts c

def upperForm (c : Char) : List Char :=
  if c.toNat < 0x80 then [c.toUpper] else recase toUpperSpellings toUpperShifts c

def meetsCased (s : List Char) : Bool :=
  match s.dropWhile isCaseIgnorable with
  | [] => false
  | c :: _ => isCased c

/-- Lower case of `s` after the characters of `before`, which come nearest first. A capital sigma
that ends a word has a form of its own. -/
def lowerAfter (before : List Char) : List Char → List Char
  | [] => []
  | c :: cs =>
    (if c = 'Σ' then [if meetsCased before && !meetsCased cs then 'ς' else 'σ'] else lowerForm c)
      ++ lowerAfter (c :: before) cs

def lowerChars (s : List Char) : List Char := lowerAfter [] s

def upperChars (s : List Char) : List Char := s.flatMap upperForm

end DesignCompiler.Text

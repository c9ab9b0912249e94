import DesignCompiler.StyleSheet.Declaration
import DesignCompiler.StyleSheet.Selector

namespace DesignCompiler.StyleSheet

structure Rule where
  selector : Selector
  declarations : List Declaration
  deriving Repr

def skipAtRule (s : List Char) : List Char :=
  let (name, s) := (Reading.ident.run s).run
  if name.isNone then s
  else
    match s.dropWhile fun c => c != ';' && c != '{' with
    | ';' :: rest => rest
    | '{' :: rest => Reading.skipBlock 0 rest
    | rest => rest

/-- The selectors before a block, without those that are malformed, and the block with its opening brace.
After a mistake the block is looked for at once. -/
def selectorList : (fuel : Nat) → List Char → List Selector × List Char
  | 0, s => ([], s)
  | fuel + 1, s =>
    let s := if s.head? = some ',' then s.drop 1 else s
    let (selector, s) := (Reading.selector.run s).run
    let s := s.dropWhile isSpace
    if s.head? = some ',' then
      let (more, s) := selectorList fuel s
      (selector.toList ++ more, s)
    else (selector.toList, s.dropWhile (· != '{'))

def rules (s : List Char) : List Rule × List Char :=
  match selectorList (s.length + 1) s with
  | (selectors, '{' :: rest) =>
    let (declarations, rest) := Reading.block (rest.length + 1) rest
    let rest := if rest.head? = some '}' then rest.drop 1 else rest
    (selectors.map fun s => ⟨s, declarations⟩, rest)
  | (_, rest) => ([], rest)

def rulesWithin : (fuel : Nat) → List Char → List Rule
  | 0, _ => []
  | fuel + 1, s =>
    match (Reading.blanks.run s).run with
    | (none, _) | (some _, []) => []
    | (some _, '@' :: s) => rulesWithin fuel (skipAtRule s)
    | (some _, s) =>
      let (read, rest) := rules s
      read ++ rulesWithin fuel rest

def Rule.isBefore (a b : Rule) : Bool :=
  let (i, c, n) := a.selector.specificity
  let (j, d, m) := b.selector.specificity
  i < j || (i = j && (c < d || (c = d && n ≤ m)))

/-- The rules of several sheets; of rules that are as specific as each other the later one counts. -/
def ofTexts (texts : List String) : List Rule :=
  (texts.flatMap fun s => rulesWithin (s.length + 1) s.toList).mergeSort Rule.isBefore

end DesignCompiler.StyleSheet

import DesignCompiler.Text.Cluster

namespace DesignCompiler.Text

/-- A cluster that separates words; one with a mark does not. -/
def Cluster.isSeparator (c : Cluster) : Bool := c = ['_'] || c = ['-'] || c = [' ']

/-- Whether a word ends between `c` and `d`, given the cluster after `d`. -/
def isWordBoundary (c d : Cluster) (next : Option Cluster) : Bool :=
  (c.isLower && d.isUpper)
    || (c.isUpper && d.isDigit) || (c.isDigit && d.isUpper)
    || (c.isDigit && d.isLower) || (c.isLower && d.isDigit)
    || (c.isUpper && d.isUpper && next.any Cluster.isLower)

abbrev Word := List Cluster

/-- Splits `s` into words; `word` is the current one, last cluster first. -/
def wordsFrom (word : Word) : List Cluster → List Word
  | [] => [word.reverse]
  | d :: rest =>
    if d.isSeparator then word.reverse :: wordsFrom [] rest
    else if word.head?.any fun c => isWordBoundary c d rest.head? then
      word.reverse :: wordsFrom [d] rest
    else wordsFrom (d :: word) rest

/-- Underscores, hyphens and spaces separate words and vanish. A word also ends where the kind of cluster changes: at
lower|upper, between a letter and a digit, and before the last capital of a run that a lower-case letter follows, so
that `HTTPServer` is `HTTP`, `Server`. -/
def words (s : List Char) : List Word := (wordsFrom [] (clusters s)).filter (!·.isEmpty)

def Word.lower (w : Word) : List Char := lowerChars w.flatten

def Word.capital (w : Word) : List Char :=
  match w.flatten with
  | [] => []
  | first :: rest => upperChars [first] ++ lowerChars rest

def kebabChars (s : List Char) : List Char := ['-'].intercalate ((words s).map Word.lower)

def camelChars (s : List Char) : List Char :=
  match words s with
  | [] => []
  | first :: rest => first.lower ++ (rest.map Word.capital).flatten

def pascalChars (s : List Char) : List Char := ((words s).map Word.capital).flatten

def kebab (s : String) : String := .ofList (kebabChars s.toList)

def camel (s : String) : String := .ofList (camelChars s.toList)

def pascal (s : String) : String := .ofList (pascalChars s.toList)

end DesignCompiler.Text

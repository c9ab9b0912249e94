namespace DesignCompiler.Text

def after? : (mark s : List Char) → Option (List Char)
  | [], s => some s
  | _ :: _, [] => none
  | m :: ms, c :: cs => if m = c then after? ms cs else none

theorem eq_append_of_after? {mark s rest : List Char} (h : after? mark s = some rest) :
    s = mark ++ rest := by
  induction mark generalizing s with
  | nil => simpa [after?] using h
  | cons m ms ih =>
    cases s with
    | nil => simp [after?] at h
    | cons c cs =>
      by_cases hc : m = c
      · simp only [after?, hc, if_true] at h
        simp [hc, ih h]
      · simp [after?, hc] at h

theorem after?_append (mark rest : List Char) : after? mark (mark ++ rest) = some rest := by
  induction mark with
  | nil => rfl
  | cons m ms ih => simpa [after?] using ih

def cut? (mark : List Char) : List Char → Option (List Char × List Char)
  | [] => (after? mark []).map fun rest => ([], rest)
  | c :: cs =>
    match after? mark (c :: cs) with
    | some rest => some ([], rest)
    | none => (cut? mark cs).map fun (before, rest) => (c :: before, rest)

theorem eq_append_of_cut? {mark s before rest : List Char} (h : cut? mark s = some (before, rest)) :
    s = before ++ mark ++ rest := by
  induction s generalizing before with
  | nil =>
    obtain ⟨r, hr, he⟩ := Option.map_eq_some_iff.1 h
    obtain ⟨rfl, rfl⟩ := Prod.mk.inj he
    simpa using eq_append_of_after? hr
  | cons c cs ih =>
    simp only [cut?] at h
    split at h
    · next r hr =>
      obtain ⟨rfl, rfl⟩ := Prod.mk.inj (Option.some.inj h)
      simpa using eq_append_of_after? hr
    · obtain ⟨⟨b, r⟩, hr, he⟩ := Option.map_eq_some_iff.1 h
      obtain ⟨rfl, rfl⟩ := Prod.mk.inj he
      simp [ih hr]

theorem length_lt_of_cut? {mark s before rest : List Char} (hm : mark ≠ [])
    (h : cut? mark s = some (before, rest)) : rest.length < s.length := by
  have hs := eq_append_of_cut? h
  have hp := List.length_pos_iff.2 hm
  rw [hs]
  simp only [List.length_append]
  omega

def pieces (mark : List Char) (hm : mark ≠ []) (s : List Char) : List (List Char) :=
  match h : cut? mark s with
  | none => [s]
  | some (before, rest) =>
    have := length_lt_of_cut? hm h
    before :: pieces mark hm rest
termination_by s.length

/-- The pieces of a text between occurrences of `mark`; an empty mark leaves the single characters
between two empty pieces. -/
def splitChars (mark s : List Char) : List (List Char) :=
  if hm : mark = [] then [] :: s.map (fun c => [c]) ++ [[]] else pieces mark hm s

/-- The text up to the earliest occurrence of one of the marks, and the rest, which begins with that
mark or is empty. Empty marks do not count. -/
def breakAt (marks : List (List Char)) : List Char → List Char × List Char
  | [] => ([], [])
  | c :: cs =>
    if marks.any fun m => !m.isEmpty && (after? m (c :: cs)).isSome then ([], c :: cs)
    else
      let (before, rest) := breakAt marks cs
      (c :: before, rest)

theorem breakAt_append (marks : List (List Char)) (s : List Char) :
    (breakAt marks s).1 ++ (breakAt marks s).2 = s := by
  induction s with
  | nil => rfl
  | cons c cs ih =>
    simp only [breakAt]
    split
    · rfl
    · simpa using ih

/-- The lines of a text: a line ends at a line feed, which a carriage return may precede, and
nothing follows the last end of line. -/
def lineChars : List Char → List (List Char)
  | s => dropEnd (splitChars ['\n'] s)
where
  chomp (line : List Char) : List Char :=
    match line.getLast? with
    | some '\r' => line.dropLast
    | _ => line
  dropEnd : List (List Char) → List (List Char)
    | [] => []
    | [last] => if last.isEmpty then [] else [last]
    | line :: rest => chomp line :: dropEnd rest

def isBlank (c : Char) : Bool :=
  let n := c.toNat
  (9 ≤ n && n ≤ 13) || n == 0x20 || n == 0x85 || n == 0xA0 || n == 0x1680
    || (0x2000 ≤ n && n ≤ 0x200A) || n == 0x2028 || n == 0x2029 || n == 0x202F || n == 0x205F
    || n == 0x3000

def trimStartChars (s : List Char) : List Char := s.dropWhile isBlank

def trimEndChars (s : List Char) : List Char := (s.reverse.dropWhile isBlank).reverse

def trimChars (s : List Char) : List Char := trimEndChars (trimStartChars s)

def splitOnce? (mark s : String) : Option (String × String) :=
  (cut? mark.toList s.toList).map fun (before, rest) => (.ofList before, .ofList rest)

def split (mark s : String) : List String :=
  (splitChars mark.toList s.toList).map .ofList

def lines (s : String) : List String := (lineChars s.toList).map .ofList

def trim (s : String) : String := .ofList (trimChars s.toList)

def replace (mark replacement s : String) : String := replacement.intercalate (split mark s)

def contains (mark s : String) : Bool := (cut? mark.toList s.toList).isSome

def startsWith (mark s : String) : Bool := (after? mark.toList s.toList).isSome

def strip? (mark s : String) : Option String := (after? mark.toList s.toList).map .ofList

end DesignCompiler.Text

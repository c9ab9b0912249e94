import DesignCompiler.Markup.Printer
import DesignCompiler.Proofs.Bares
import DesignCompiler.Proofs.Names
import DesignCompiler.Proofs.Occurrences
import DesignCompiler.Proofs.Rereading
import DesignCompiler.Proofs.Tables

namespace DesignCompiler.Markup

/-- The names of characters between `&` and `;`, among them those that literals are escaped with. -/
structure References where
  char? : List Char → Option Char
  amp : char? "amp".toList = some '&'
  quot : char? "quot".toList = some '"'
  lt : char? "lt".toList = some '<'

namespace References

variable (refs : References) {c : Char} {s rest : List Char}

def read? (s : List Char) : Option (Char × List Char) :=
  (Text.cut? [';'] s).bind fun (name, rest) => (refs.char? name).map (·, rest)

def Mentions (s : List Char) : Prop :=
  ∃ before name rest, s = before ++ '&' :: (name ++ ';' :: rest) ∧ ';' ∉ name ∧ (refs.char? name).isSome

variable {refs}

theorem read?_eq_some_iff :
    refs.read? s = some (c, rest) ↔ ∃ name, ';' ∉ name ∧ refs.char? name = some c ∧ s = name ++ ';' :: rest := by
  constructor
  · intro h
    obtain ⟨⟨name, rest'⟩, hcut, hchar⟩ := Option.bind_eq_some_iff.1 h
    obtain ⟨d, hd, heq⟩ := Option.map_eq_some_iff.1 hchar
    cases heq
    obtain ⟨hname, hs⟩ := Text.cut?_singleton_eq_some_iff.1 hcut
    exact ⟨name, hname, hd, hs⟩
  · rintro ⟨name, hname, hchar, rfl⟩
    rw [read?, Text.cut?_singleton_eq_some_iff.2 ⟨hname, rfl⟩, Option.bind_some]
    exact Option.map_eq_some_iff.2 ⟨c, hchar, rfl⟩

theorem length_lt_of_read? (h : refs.read? s = some (c, rest)) : rest.length < s.length := by
  obtain ⟨name, -, -, rfl⟩ := read?_eq_some_iff.1 h
  rw [List.length_append, List.length_cons]
  omega

variable (refs) in
/-- A text whose references are replaced, each once; an ampersand without a name stays. -/
def decode : List Char → List Char
  | [] => []
  | c :: s =>
    if c = '&' then
      match h : refs.read? s with
      | some (d, rest) =>
        have := length_lt_of_read? h
        d :: decode rest
      | none => c :: decode s
    else c :: decode s
termination_by s => s.length

theorem decode_reference (h : refs.read? s = some (c, rest)) : refs.decode ('&' :: s) = c :: refs.decode rest := by
  rw [decode, if_pos rfl]
  split <;> simp_all

theorem decode_cons (h : c = '&' → refs.read? s = none) : refs.decode (c :: s) = c :: refs.decode s := by
  rw [decode]
  by_cases hc : c = '&'
  · rw [if_pos hc]
    split <;> simp_all
  · rw [if_neg hc]

theorem length_decode_le (s : List Char) : (refs.decode s).length ≤ s.length := by
  induction s using decode.induct refs with
  | case1 => simp [decode]
  | case2 s d rest h hlt ih =>
      rw [decode_reference h]
      simp only [List.length_cons]
      omega
  | case3 s h ih => rw [decode_cons fun _ => h]; simpa
  | case4 c s hc ih => rw [decode_cons fun h => absurd h hc]; simpa

theorem mentions_cons_iff : refs.Mentions (c :: s) ↔ c = '&' ∧ (refs.read? s).isSome ∨ refs.Mentions s := by
  constructor
  · rintro ⟨before, name, rest, heq, hname, hsome⟩
    rcases List.cons_eq_append_iff.1 heq with ⟨rfl, h⟩ | ⟨before, rfl, h⟩
    · cases h
      obtain ⟨d, hd⟩ := Option.isSome_iff_exists.1 hsome
      rw [read?_eq_some_iff.2 ⟨name, hname, hd, rfl⟩]
      exact .inl ⟨rfl, rfl⟩
    · exact .inr ⟨before, name, rest, h, hname, hsome⟩
  · rintro (⟨rfl, h⟩ | ⟨before, name, rest, rfl, hname, hsome⟩)
    · obtain ⟨⟨d, rest⟩, hread⟩ := Option.isSome_iff_exists.1 h
      obtain ⟨name, hname, hchar, rfl⟩ := read?_eq_some_iff.1 hread
      exact ⟨[], name, rest, rfl, hname, Option.isSome_of_eq_some hchar⟩
    · exact ⟨c :: before, name, rest, rfl, hname, hsome⟩

theorem decode_eq_self_iff (s : List Char) : refs.decode s = s ↔ ¬refs.Mentions s := by
  induction s using decode.induct refs with
  | case1 => simp [decode, Mentions]
  | case2 s d rest h hlt ih =>
      have hmentions : refs.Mentions ('&' :: s) := mentions_cons_iff.2 (.inl ⟨rfl, by simp [h]⟩)
      simp only [hmentions, not_true_eq_false, iff_false, decode_reference h]
      -- a reference is longer than its character, so the text gets shorter
      intro heq
      have hlength := congrArg List.length heq
      have hle : (refs.decode rest).length ≤ rest.length := length_decode_le rest
      simp only [List.length_cons] at hlength
      omega
  | case3 s h ih =>
      rw [decode_cons fun _ => h, mentions_cons_iff, List.cons_inj_right, ih]
      simp [h]
  | case4 c s hc ih =>
      rw [decode_cons fun h => absurd h hc, mentions_cons_iff, List.cons_inj_right, ih]
      simp [hc]

end References

def escaped (c : Char) : List Char :=
  if c = '&' then "&amp;".toList
  else if c = '"' then "&quot;".toList
  else if c = '<' then "&lt;".toList
  else [c]

theorem toList_escapeAttribute (value : String) : (escapeAttribute value).toList = value.toList.flatMap escaped := by
  rw [escapeAttribute, String.toList_ofList]
  rfl

theorem quote_notMem_escaped (s : List Char) : '"' ∉ s.flatMap escaped := by
  rw [List.mem_flatMap]
  rintro ⟨c, -, hc⟩
  rw [escaped] at hc
  split_ifs at hc with hamp hquot hlt
  · exact absurd hc (by decide)
  · exact absurd hc (by decide)
  · exact absurd hc (by decide)
  · exact hquot (List.mem_singleton.1 hc).symm

theorem decode_escaped (refs : References) (c : Char) (s : List Char) :
    refs.decode (escaped c ++ s) = c :: refs.decode s := by
  rw [escaped]
  split_ifs with hamp hquot hlt
  · subst hamp
    exact References.decode_reference (References.read?_eq_some_iff.2 ⟨_, by decide, refs.amp, rfl⟩)
  · subst hquot
    exact References.decode_reference (References.read?_eq_some_iff.2 ⟨_, by decide, refs.quot, rfl⟩)
  · subst hlt
    exact References.decode_reference (References.read?_eq_some_iff.2 ⟨_, by decide, refs.lt, rfl⟩)
  · exact References.decode_cons fun h => absurd h hamp

theorem decode_escapeAttribute (refs : References) (value : String) :
    refs.decode (escapeAttribute value).toList = value.toList := by
  rw [toList_escapeAttribute]
  induction value.toList with
  | nil => simp [References.decode]
  | cons c s ih => rw [List.flatMap_cons, decode_escaped, ih]

inductive Part where
  | spread (code : String)
  | named (name : String) (value : AttrValue)
  deriving DecidableEq

def Part.print : Part → String
  | spread code => " " ++ braced code
  | named name value => " " ++ name ++ "=" ++ value.print

def depthAfter (depth : Nat) (c : Char) : Nat :=
  if c = '{' then depth + 1 else if c = '}' then depth - 1 else depth

/-- The text up to the brace that closes as many open braces and one more, and what stands after that. -/
def code? (depth : Nat) : List Char → Option (List Char × List Char)
  | [] => none
  | c :: s =>
    if c = '}' ∧ depth = 0 then some ([], s)
    else (code? (depthAfter depth c) s).map fun (code, rest) => (c :: code, rest)

def endsName (c : Char) : Bool := c.isWhitespace || c = '=' || c = '/' || c = '>' || c = '{'

def readName? (s : List Char) : Option (String × List Char) :=
  let name := s.takeWhile (!endsName ·)
  if name = [] then none else some (.ofList name, s.dropWhile (!endsName ·))

section Reading

variable (refs : References)

def readAttrValue? : List Char → Option (AttrValue × List Char)
  | '"' :: s => (Text.cut? ['"'] s).map fun (raw, rest) => (.literal (.ofList (refs.decode raw)), rest)
  | '{' :: s => (code? 0 s).map fun (code, rest) => (.expression (.ofList code), rest)
  | _ => none

def readPart? : List Char → Option (Part × List Char)
  | ' ' :: '{' :: s => (code? 0 s).map fun (code, rest) => (.spread (.ofList code), rest)
  | ' ' :: s => do
    let (name, s) ← readName? s
    let s ← Text.after? ['='] s
    let (value, rest) ← readAttrValue? refs s
    return (.named name value, rest)
  | _ => none

def readParts : (fuel : Nat) → List Char → List Part × List Char
  | 0, s => ([], s)
  | fuel + 1, s => match readPart? refs s with
    | none => ([], s)
    | some (part, rest) =>
      let (parts, rest) := readParts fuel rest
      (part :: parts, rest)

end Reading

/-- An element without elements below it; its text is empty if it has no child. -/
structure Leaf where
  tag : String
  parts : List Part
  text : String
  deriving DecidableEq

def isLineBreak (c : Char) : Bool := c = '\n' || c = '\r'

section Reading

variable (refs : References)

def readText? : List Char → Option (String × List Char)
  | '{' :: s => match Json.readValue? (2 * s.length) (s.map some) with
    | some (.string text, some '}' :: rest) => some (text, rest.filterMap id)
    | _ => none
  | s =>
    let raw := s.takeWhile (!endsText ·)
    if raw.any isLineBreak then none else some (.ofList (refs.decode raw), s.dropWhile (!endsText ·))

def readOpening? (s : List Char) : Option (String × List Part × List Char) := do
  let s ← Text.after? ['<'] s
  let (tag, s) ← readName? s
  return (tag, readParts refs s.length s)

def readLeaf? (s : String) : Option Leaf := do
  let (tag, parts, s) ← readOpening? refs s.toList
  if s = [' ', '/', '>'] then some ⟨tag, parts, ""⟩
  else
    let s ← Text.after? ['>'] s
    let (text, s) ← readText? refs s
    if s = ("</" ++ tag ++ ">").toList then some ⟨tag, parts, text⟩ else none

end Reading

namespace Element

variable (e : Element)

def openParts : List Part := e.spreads.map .spread ++ e.attributes.map fun (name, value) => .named name value

def leaf : Leaf where
  tag := e.tag
  parts := e.openParts
  text := match e.children with
    | [.text s] => s
    | _ => ""

end Element

def IsName (name : String) : Prop := name ≠ "" ∧ name.toList.any endsName = false

/-- Code that leaves no brace open and closes none that it does not open. -/
def IsClosed (code : String) : Prop := code? 0 (code.toList ++ ['}']) = some (code.toList, [])

def Part.IsReadable : Part → Prop
  | spread code => IsClosed code
  | named name (.literal _) => IsName name
  | named name (.expression code) => IsName name ∧ IsClosed code

instance (name : String) : Decidable (IsName name) := inferInstanceAs (Decidable (_ ∧ _))

instance (code : String) : Decidable (IsClosed code) := inferInstanceAs (Decidable (_ = _))

instance : (part : Part) → Decidable part.IsReadable
  | .spread code => inferInstanceAs (Decidable (IsClosed code))
  | .named name (.literal _) => inferInstanceAs (Decidable (IsName name))
  | .named name (.expression code) => inferInstanceAs (Decidable (IsName name ∧ IsClosed code))

structure Element.IsReadable (e : Element) : Prop where
  tag : IsName e.tag
  parts : ∀ part ∈ e.openParts, part.IsReadable

theorem isName_of_isWritten {name : String} (h : Xml.IsWritten name.toList) : IsName name := by
  refine ⟨by simpa using h.1, ?_⟩
  rw [List.any_eq_false]
  intro c hc hends
  have hchar := h.2 c hc
  simp only [endsName, Char.isWhitespace, Bool.or_eq_true, decide_eq_true_eq] at hends
  rcases hends with ((((((rfl | rfl) | rfl) | rfl) | rfl) | rfl) | rfl) | rfl <;> exact absurd hchar (by decide)

theorem isName_attributeKey {a : Xml.Attribute} (h : Xml.IsWritten a.name.toList) : IsName (attributeKey a) := by
  apply isName_of_isWritten
  rw [attributeKey]
  split_ifs
  · rw [String.toList_append]
    exact h.append_left (by decide)
  · rw [String.toList_append]
    exact h.append_left (by decide)
  · exact h

mutual

theorem isReadable_of_mem_parts : ∀ {e : Xml.Element}, e.IsNamed → ∀ d ∈ (Element.ofXml e).parts, d.IsReadable
  | ⟨space, name, attributes, children⟩, .intro hname hattributes hchildren => by
    rw [Element.ofXml, Element.parts, List.forall_mem_cons]
    refine ⟨⟨isName_of_isWritten hname, ?_⟩, isReadable_of_mem_partsOfAll hchildren⟩
    rw [Element.openParts, List.map_nil, List.nil_append, List.forall_mem_map]
    intro row hrow
    obtain ⟨a, ha, rfl⟩ := List.mem_map.1 (Table.mem_of_mem_ofList hrow)
    exact isName_attributeKey (hattributes a ha)

theorem isReadable_of_mem_partsOfAll : ∀ {children : List (Xml.Content Xml.Element)},
    (∀ e, .element e ∈ children → e.IsNamed) → ∀ d ∈ Element.partsOfAll (childrenOfXml children), d.IsReadable
  | [], _ => by simp [childrenOfXml, Element.partsOfAll]
  | .element e :: rest, h => by
    rw [childrenOfXml, Element.partsOfAll, List.forall_mem_append]
    exact ⟨isReadable_of_mem_parts (h e List.mem_cons_self),
      isReadable_of_mem_partsOfAll fun e he => h e (List.mem_cons_of_mem _ he)⟩
  | .text s :: rest, h => by
    rw [childrenOfXml, Element.partsOfAll]
    exact isReadable_of_mem_partsOfAll fun e he => h e (List.mem_cons_of_mem _ he)
  | .gap :: rest, h => by
    rw [childrenOfXml]
    exact isReadable_of_mem_partsOfAll fun e he => h e (List.mem_cons_of_mem _ he)

end

theorem isReadable_of_parse {raw : String} {document : Element} (h : Element.parse raw = .ok document) :
    ∀ d ∈ document.parts, d.IsReadable := by
  obtain ⟨root, hparse, rfl⟩ := Element.exists_xml_of_parse h
  exact isReadable_of_mem_parts (Xml.isNamed_of_parse hparse)

theorem code?_append {depth : Nat} {s code rest : List Char} (h : code? depth s = some (code, rest)) (t : List Char) :
    code? depth (s ++ t) = some (code, rest ++ t) := by
  induction s generalizing depth code with
  | nil => cases h
  | cons c s ih =>
      rw [code?] at h
      rw [List.cons_append, code?]
      by_cases hend : c = '}' ∧ depth = 0
      · rw [if_pos hend] at h ⊢
        cases h
        rfl
      · rw [if_neg hend] at h ⊢
        obtain ⟨⟨code', rest'⟩, hcode, heq⟩ := Option.map_eq_some_iff.1 h
        cases heq
        rw [ih hcode]
        rfl

theorem IsClosed.code?_eq {code : String} (h : IsClosed code) (rest : List Char) :
    code? 0 (code.toList ++ '}' :: rest) = some (code.toList, rest) := by
  simpa using code?_append h rest

theorem readName?_append {name : String} (h : IsName name) {s : List Char} (hs : ∀ c ∈ s.head?, endsName c) :
    readName? (name.toList ++ s) = some (name, s) := by
  have hall : ∀ c ∈ name.toList, (!endsName c) = true := by simpa [List.any_eq_false] using h.2
  have hne : name.toList ≠ [] := by simpa using h.1
  rw [readName?, List.takeWhile_append_of_pos hall, List.dropWhile_append_of_pos hall]
  cases s with
  | nil => simp [hne]
  | cons c s =>
      have hc : endsName c = true := hs c rfl
      simp [hne, hc]

section Printed

variable (refs : References)

theorem readAttrValue?_literal (value : String) (rest : List Char) :
    readAttrValue? refs ((AttrValue.literal value).print.toList ++ rest) = some (.literal value, rest) := by
  have hcut : Text.cut? ['"'] ((escapeAttribute value).toList ++ '"' :: rest) =
      some ((escapeAttribute value).toList, rest) := by
    rw [Text.cut?_singleton_eq_some_iff, toList_escapeAttribute]
    exact ⟨quote_notMem_escaped value.toList, rfl⟩
  simp [AttrValue.print, readAttrValue?, hcut, decode_escapeAttribute]

theorem readAttrValue?_expression {code : String} (h : IsClosed code) (rest : List Char) :
    readAttrValue? refs ((AttrValue.expression code).print.toList ++ rest) = some (.expression code, rest) := by
  simp [AttrValue.print, braced, readAttrValue?, h.code?_eq]

theorem readPart?_named {name : String} (h : IsName name) {value : AttrValue} {rest : List Char}
    (hvalue : readAttrValue? refs (value.print.toList ++ rest) = some (value, rest)) :
    readPart? refs ((Part.named name value).print.toList ++ rest) = some (.named name value, rest) := by
  have hprint : (Part.named name value).print.toList ++ rest =
      ' ' :: (name.toList ++ '=' :: (value.print.toList ++ rest)) := by
    simp [Part.print]
  rw [hprint, readPart?]
  · rw [readName?_append h (by simp [endsName])]
    simp [Text.after?, hvalue]
  · intro s hs
    obtain ⟨c, cs, hname⟩ := List.exists_cons_of_ne_nil (l := name.toList) (by simpa using h.1)
    rw [hname] at hs
    cases hs
    exact List.any_eq_false.1 h.2 '{' (by simp [hname]) (by decide)

theorem readPart?_print {part : Part} (h : part.IsReadable) (rest : List Char) :
    readPart? refs (part.print.toList ++ rest) = some (part, rest) := by
  cases part with
  | spread code => simp [Part.print, braced, readPart?, h.code?_eq]
  | named name value =>
      cases value with
      | literal value => exact readPart?_named refs h (readAttrValue?_literal refs value rest)
      | expression code => exact readPart?_named refs h.1 (readAttrValue?_expression refs h.2 rest)

theorem readParts_print {parts : List Part} (h : ∀ part ∈ parts, part.IsReadable) {rest : List Char}
    (hrest : readPart? refs rest = none) {fuel : Nat} (hfuel : parts.length ≤ fuel) :
    readParts refs fuel (parts.flatMap (·.print.toList) ++ rest) = (parts, rest) := by
  induction parts generalizing fuel with
  | nil =>
      cases fuel with
      | zero => rfl
      | succ fuel => simp [readParts, hrest]
  | cons part parts ih =>
      obtain ⟨fuel, rfl⟩ := Nat.exists_eq_succ_of_ne_zero (n := fuel) (by rintro rfl; simp at hfuel)
      rw [List.forall_mem_cons] at h
      rw [List.flatMap_cons, List.append_assoc, readParts, readPart?_print refs h.1]
      simp only [ih h.2 (Nat.le_of_succ_le_succ hfuel)]

theorem readText?_quote (s : String) (rest : List Char) :
    readText? refs ((braced (Json.quote s)).toList ++ rest) = some (s, rest) := by
  have hprint : (braced (Json.quote s)).toList ++ rest = '{' :: ((Json.quote s).toList ++ '}' :: rest) := by
    simp [braced]
  have hfuel : (Json.text (.string s)).length ≤ ((Json.quote s).toList ++ '}' :: rest).length := by
    simp [Json.text, Json.render]
  have hread := Json.reads_string s (2 * ((Json.quote s).toList ++ '}' :: rest).length) (some '}' :: rest.map some)
    (by omega) (Json.follows_cons (by decide) _)
  have htext : ((Json.quote s).toList ++ '}' :: rest).map some =
      Json.text (.string s) ++ some '}' :: rest.map some := by
    simp [Json.text, Json.render]
  rw [hprint, readText?, htext, hread]
  simp

theorem readText?_escapeText {s : String} (h : s.toList.any isLineBreak = false) (rest : List Char) :
    readText? refs ((escapeText s).toList ++ '<' :: rest) =
      some (if s.toList.any endsText then s else .ofList (refs.decode s.toList), '<' :: rest) := by
  rw [escapeText]
  by_cases hs : s.toList.any endsText
  · rw [if_pos hs, if_pos hs]
    exact readText?_quote refs s _
  · have hall : ∀ c ∈ s.toList, (!endsText c) = true := by simpa using hs
    rw [if_neg hs, if_neg hs, readText?]
    · rw [List.takeWhile_append_of_pos hall, List.dropWhile_append_of_pos hall]
      simp [endsText, h]
    · -- no brace stands at the front, where it would open an expression
      rintro t ht
      cases hchars : s.toList with
      | nil =>
          rw [hchars] at ht
          cases ht
      | cons c s =>
          rw [hchars] at ht hall
          cases ht
          exact absurd (hall '{' List.mem_cons_self) (by decide)

theorem toList_openTag (e : Element) : (openTag e.tag e.attributes e.spreads).toList =
    '<' :: (e.tag.toList ++ e.openParts.flatMap (·.print.toList)) := by
  simp [openTag, Element.openParts, Part.print, List.flatMap_map]

theorem length_le_length_print (parts : List Part) : parts.length ≤ (parts.flatMap (·.print.toList)).length := by
  induction parts with
  | nil => exact Nat.le_refl 0
  | cons part parts ih =>
      have hpart : 0 < part.print.toList.length := by cases part <;> simp [Part.print]
      rw [List.flatMap_cons, List.length_append, List.length_cons]
      omega

theorem print_of_childless {e : Element} (h : e.children = []) :
    print e = openTag e.tag e.attributes e.spreads ++ " />" := by
  obtain ⟨tag, attributes, spreads, children⟩ := e
  cases h
  simp [print, printLines, tabs]

theorem print_of_text {e : Element} {s : String} (h : e.children = [.text s]) :
    print e = openTag e.tag e.attributes e.spreads ++ ">" ++ escapeText s ++ "</" ++ e.tag ++ ">" := by
  obtain ⟨tag, attributes, spreads, children⟩ := e
  cases h
  simp [print, printLines, tabs, Child.isElement, Child.inlineText]

variable {e : Element}

theorem readOpening?_openTag (he : e.IsReadable) {rest : List Char}
    (hrest : readPart? refs rest = none) (hends : ∀ c ∈ rest.head?, endsName c) :
    readOpening? refs ((openTag e.tag e.attributes e.spreads).toList ++ rest) = some (e.tag, e.openParts, rest) := by
  have hfuel : e.openParts.length ≤ (e.openParts.flatMap (·.print.toList) ++ rest).length := by
    rw [List.length_append]
    exact Nat.le_add_right_of_le (length_le_length_print e.openParts)
  have hname : ∀ c ∈ (e.openParts.flatMap (·.print.toList) ++ rest).head?, endsName c := by
    cases e.openParts with
    | nil => exact hends
    | cons part parts => cases part <;> simp [Part.print, endsName]
  simp only [toList_openTag, List.cons_append, List.append_assoc, readOpening?, Text.after?_cons_self,
    readName?_append he.tag hname, readParts_print refs he.parts hrest hfuel, Option.bind_eq_bind, Option.bind_some]
  rfl

/-- What is printed for a leaf is read as the leaf, but for references in a text that is printed as it is. -/
theorem readLeaf?_print (hchildren : e.children = [] ∨ ∃ s, e.children = [.text s]) (he : e.IsReadable)
    (hlines : e.leaf.text.toList.any isLineBreak = false) :
    readLeaf? refs (print e) = some { e.leaf with
      text := if e.leaf.text.toList.any endsText then e.leaf.text else .ofList (refs.decode e.leaf.text.toList) } := by
  rcases hchildren with hnone | ⟨s, hs⟩
  · have htext : e.leaf.text = "" := by rw [Element.leaf, hnone]
    have hclosed : (" />" : String).toList = [' ', '/', '>'] := rfl
    have hend : readPart? refs [' ', '/', '>'] = none := by simp [readPart?, readName?, endsName]
    have hopening := readOpening?_openTag refs he hend (by simp [endsName])
    rw [print_of_childless hnone, readLeaf?, String.toList_append, hclosed, hopening, htext]
    simp [References.decode, Element.leaf]
  · have htext : e.leaf.text = s := by rw [Element.leaf, hs]
    have hclosing : ("</" ++ e.tag ++ ">").toList = '<' :: '/' :: (e.tag.toList ++ ['>']) := by simp
    have hprint : (print e).toList = (openTag e.tag e.attributes e.spreads).toList ++
        '>' :: ((escapeText s).toList ++ ("</" ++ e.tag ++ ">").toList) := by
      rw [print_of_text hs]
      simp
    have hend : readPart? refs ('>' :: ((escapeText s).toList ++ ("</" ++ e.tag ++ ">").toList)) = none := by
      simp [readPart?]
    have hopening := readOpening?_openTag refs he hend (by simp [endsName])
    rw [htext] at hlines ⊢
    have hread := readText?_escapeText refs hlines ('/' :: (e.tag.toList ++ ['>']))
    rw [← hclosing] at hread
    rw [readLeaf?, hprint, hopening]
    simp only [Option.bind_eq_bind, Option.bind_some, Text.after?_cons_self, hread]
    simp [Element.leaf]

/-- A leaf is read as itself just when a character of its text asks for a string expression, or no reference stands
in the text. -/
theorem readLeaf?_print_iff (hchildren : e.children = [] ∨ ∃ s, e.children = [.text s]) (he : e.IsReadable)
    (hlines : e.leaf.text.toList.any isLineBreak = false) :
    readLeaf? refs (print e) = some { e.leaf with
      text := if e.leaf.text.toList.any endsText then e.leaf.text else .ofList (refs.decode e.leaf.text.toList) } ∧
    (readLeaf? refs (print e) = some e.leaf ↔
      e.leaf.text.toList.any endsText ∨ ¬refs.Mentions e.leaf.text.toList) := by
  have hread := readLeaf?_print refs hchildren he hlines
  refine ⟨hread, ?_⟩
  rw [hread, Option.some_inj, ← References.decode_eq_self_iff]
  obtain ⟨tag, parts, text⟩ := e.leaf
  by_cases h : text.toList.any endsText
  · simp [h]
  · simp [h, String.ext_iff]

end Printed

def commonReferences : References where
  char? name :=
    if name = "amp".toList then some '&'
    else if name = "quot".toList then some '"'
    else if name = "lt".toList then some '<'
    else if name = "gt".toList then some '>'
    else none
  amp := rfl
  quot := rfl
  lt := rfl

def bracedLabel : Element where
  tag := "text"
  attributes := [("title", .literal "\"&lt;\" <")]
  spreads := ["...props"]
  children := [.text "\x7ba\x7d &amp; b"]

theorem readLeaf?_bracedLabel :
    bracedLabel.IsReadable ∧ bracedLabel.leaf.text.toList.any endsText ∧
      readLeaf? commonReferences (print bracedLabel) = some bracedLabel.leaf := by
  have hreadable : bracedLabel.IsReadable := ⟨by decide, by decide +kernel⟩
  have hbrace : bracedLabel.leaf.text.toList.any endsText := by decide
  have hread := readLeaf?_print_iff commonReferences (.inr ⟨_, rfl⟩) hreadable (by decide)
  exact ⟨hreadable, hbrace, hread.2.2 (.inl hbrace)⟩

def rawLabel : Element where
  tag := "text"
  children := [.text "a &amp; b"]

/-- Not even the elements of a document are all read as themselves. -/
theorem not_forall_readLeaf?_print :
    ¬∀ (refs : References) (raw : String) (document : Element), Element.parse raw = .ok document →
      ∀ e ∈ document.parts, (e.children = [] ∨ ∃ s, e.children = [.text s]) →
        e.leaf.text.toList.any isLineBreak = false → readLeaf? refs (print e) = some e.leaf := by
  intro h
  have hparse : Element.parse "<text>a &amp;amp; b</text>" = .ok rawLabel := by decide +kernel
  have hmem : rawLabel ∈ rawLabel.parts := List.mem_cons_self
  have hraw : rawLabel.leaf.text.toList.any endsText = false := by decide
  have hchildren : rawLabel.children = [] ∨ ∃ s, rawLabel.children = [.text s] := .inr ⟨_, rfl⟩
  have hread := h commonReferences _ rawLabel hparse rawLabel hmem hchildren (by decide)
  rw [readLeaf?_print commonReferences hchildren (isReadable_of_parse hparse rawLabel hmem) (by decide), hraw] at hread
  have htext := congrArg (String.toList ∘ Leaf.text) (Option.some.inj hread)
  simp only [Function.comp_apply, Bool.false_eq_true, if_false, String.toList_ofList] at htext
  rw [References.decode_eq_self_iff] at htext
  exact htext ⟨"a ".toList, "amp".toList, " b".toList, by decide, by decide, by decide⟩

end DesignCompiler.Markup

import DesignCompiler.Markup.Style
import DesignCompiler.Proofs.Occurrences
import DesignCompiler.Proofs.Rereading

namespace DesignCompiler.Markup

variable {s t : List Char} {depth : Nat}

/-- Inside `depth` parentheses, no beginning of a text closes one too many, and no semicolon stands outside of all. -/
structure IsEnclosed (depth : Nat) (s : List Char) : Prop where
  closes : ∀ t, t <+: s → t.count ')' ≤ depth + t.count '('
  inside : ∀ t, t ++ [';'] <+: s → t.count ')' < depth + t.count '('

structure IsBalanced (s : List Char) : Prop extends IsEnclosed 0 s where
  count_eq : s.count ')' = s.count '('

theorem isBalanced_iff_inits : IsBalanced s ↔
    (∀ t ∈ s.inits, t.count ')' ≤ t.count '(') ∧
      (∀ t ∈ s.inits, t ++ [';'] ∈ s.inits → t.count ')' < t.count '(') ∧ s.count ')' = s.count '(' := by
  simp only [List.mem_inits]
  constructor
  · intro h
    exact ⟨fun t ht => by simpa using h.closes t ht, fun t _ ht => by simpa using h.inside t ht, h.count_eq⟩
  · rintro ⟨hcloses, hinside, hcount⟩
    refine ⟨⟨fun t ht => by simpa using hcloses t ht, fun t ht => ?_⟩, hcount⟩
    simpa using hinside t ((List.prefix_append t [';']).trans ht) ht

instance : Decidable (IsBalanced s) := decidable_of_iff _ isBalanced_iff_inits.symm

namespace IsEnclosed

variable {c : Char}

theorem tail {depth' : Nat} (h : IsEnclosed depth (c :: s))
    (hdepth : depth + [c].count '(' = depth' + [c].count ')') : IsEnclosed depth' s := by
  constructor
  · intro t ht
    have hcount := h.closes (c :: t) (List.cons_prefix_cons.2 ⟨rfl, ht⟩)
    rw [← List.singleton_append, List.count_append, List.count_append] at hcount
    omega
  · intro t ht
    have hcount := h.inside (c :: t) (List.cons_prefix_cons.2 ⟨rfl, ht⟩)
    rw [← List.singleton_append, List.count_append, List.count_append] at hcount
    omega

end IsEnclosed

/-- The scan passes over a text that it could leave only at a semicolon outside of parentheses. -/
theorem declarationsAfter_append (h : IsEnclosed depth s) (current rest : List Char) :
    declarationsAfter depth current (s ++ rest) =
      declarationsAfter (depth + s.count '(' - s.count ')') (s.reverse ++ current) rest := by
  induction s generalizing depth current with
  | nil => rfl
  | cons c s ih =>
      have hfirst := h.closes [c] (by simp)
      rw [List.cons_append, declarationsAfter, List.reverse_cons, List.append_assoc, List.singleton_append]
      by_cases hopen : c = '('
      · subst hopen
        rw [if_pos rfl, ih (h.tail (by simp))]
        congr 1
        simp
        omega
      · by_cases hclose : c = ')'
        · subst hclose
          rw [if_neg (by decide), if_pos rfl, ih (h.tail (by simp at hfirst ⊢; omega))]
          congr 1
          simp at hfirst ⊢
          omega
        · have hinside : ¬(decide (c = ';') && depth == 0) := by
            intro hend
            simp only [Bool.and_eq_true, decide_eq_true_eq, beq_iff_eq] at hend
            obtain ⟨rfl, rfl⟩ := hend
            have hcount := h.inside [] (by simp)
            simp at hcount
          rw [if_neg hopen, if_neg hclose, if_neg hinside, ih (h.tail (by simp [hopen, hclose])),
            List.count_cons_of_ne hopen, List.count_cons_of_ne hclose]

def IsPassed (s : List Char) : Prop :=
  ∀ current rest, declarationsAfter 0 current (s ++ rest) = declarationsAfter 0 (s.reverse ++ current) rest

theorem IsBalanced.isPassed (h : IsBalanced s) : IsPassed s := by
  intro current rest
  rw [declarationsAfter_append h.toIsEnclosed, Nat.zero_add, h.count_eq, Nat.sub_self]

theorem isPassed_of_notMem (h : '(' ∉ s ∧ ')' ∉ s ∧ ';' ∉ s) : IsPassed s := by
  refine IsBalanced.isPassed ⟨⟨?_, ?_⟩, ?_⟩
  · intro t ht
    rw [List.count_eq_zero.2 fun hmem => h.2.1 (ht.subset hmem)]
    exact Nat.zero_le _
  · intro t ht
    exact absurd (ht.subset (by simp)) h.2.2
  · rw [List.count_eq_zero.2 h.1, List.count_eq_zero.2 h.2.1]

theorem IsPassed.append (hs : IsPassed s) (ht : IsPassed t) : IsPassed (s ++ t) := by
  intro current rest
  rw [List.append_assoc, hs, ht, List.reverse_append, List.append_assoc]

theorem declarations_of_isPassed (h : IsPassed s) : declarations s = [s] := by
  have hend := h [] []
  rw [List.append_nil, List.append_nil, declarationsAfter, List.reverse_reverse] at hend
  exact hend

theorem declarations_append (h : IsPassed s) (rest : List Char) :
    declarations (s ++ ';' :: rest) = s :: declarations rest := by
  rw [declarations, h, declarationsAfter]
  simp [declarations]

theorem declarations_intercalate {texts : List (List Char)} (hne : texts ≠ []) (h : ∀ s ∈ texts, IsPassed s) :
    declarations ([';'].intercalate texts) = texts := by
  induction texts with
  | nil => exact absurd rfl hne
  | cons s texts ih =>
      rw [List.forall_mem_cons] at h
      cases texts with
      | nil => rw [List.intercalate_singleton, declarations_of_isPassed h.1]
      | cons t texts =>
          rw [List.intercalate_cons_cons, List.append_assoc, List.singleton_append, declarations_append h.1,
            ih (List.cons_ne_nil _ _) h.2]

/-- What stands between two semicolons of a style. -/
inductive StylePart where
  | declaration (property value : String)
  | gap (blanks : String)
  deriving DecidableEq

namespace StylePart

def text : StylePart → String
  | declaration property value => property ++ ":" ++ value
  | gap blanks => blanks

def entry? : StylePart → Option (String × String)
  | declaration property value => some (styleKey property, Text.trim value)
  | gap _ => none

/-- A property is not blank and has none of the characters that could end it or count as parentheses; a value is
balanced. -/
def IsWritten : StylePart → Prop
  | declaration property value =>
    Text.trim property ≠ "" ∧ property.toList.all (· ∉ [':', ';', '(', ')']) ∧ IsBalanced value.toList
  | gap blanks => blanks.toList.all Text.isBlank

instance : DecidablePred IsWritten
  | declaration _ _ => instDecidableAnd
  | gap _ => instDecidableEqBool _ _

variable {part : StylePart}

theorem IsWritten.isPassed (h : part.IsWritten) : IsPassed part.text.toList := by
  cases part with
  | declaration property value =>
      obtain ⟨-, hproperty, hvalue⟩ := h
      rw [List.all_eq_true] at hproperty
      have hfront : IsPassed (property.toList ++ [':']) := by
        apply isPassed_of_notMem
        simp only [List.mem_append, List.mem_singleton, not_or]
        refine ⟨⟨fun hmem => ?_, by decide⟩, ⟨fun hmem => ?_, by decide⟩, ⟨fun hmem => ?_, by decide⟩⟩ <;>
          exact absurd (hproperty _ hmem) (by decide)
      rw [text, String.toList_append, String.toList_append]
      exact hfront.append hvalue.isPassed
  | gap blanks =>
      rw [IsWritten, List.all_eq_true] at h
      refine isPassed_of_notMem ⟨?_, ?_, ?_⟩ <;> exact fun hmem => absurd (h _ hmem) (by decide)

theorem styleEntry_text (h : part.IsWritten) : styleEntry part.text.toList = part.entry? := by
  cases part with
  | declaration property value =>
      obtain ⟨hname, hproperty, -⟩ := h
      rw [List.all_eq_true] at hproperty
      have hcut : Text.cut? [':'] (declaration property value).text.toList =
          some (property.toList, value.toList) :=
        Text.cut?_singleton_eq_some_iff.2 ⟨fun hmem => absurd (hproperty _ hmem) (by decide), by simp [text]⟩
      rw [styleEntry, hcut]
      simp [hname, entry?]
  | gap blanks =>
      rw [IsWritten, List.all_eq_true] at h
      have hcut : Text.cut? [':'] blanks.toList = none := by
        rw [Text.cut?_eq_none_iff, List.singleton_infix_iff]
        exact fun hmem => absurd (h _ hmem) (by decide)
      rw [text, styleEntry, hcut]
      rfl

end StylePart

def styleJson (entries : List (String × String)) : Json := .object (entries.map fun e => (e.1, .string e.2))

theorem objectText_eq_render (entries : List (String × String)) : objectText entries = (styleJson entries).render := by
  have hentries : Json.renderEntries (entries.map fun e => (e.1, .string e.2)) =
      entries.map fun e => Json.quote e.1 ++ ":" ++ Json.quote e.2 := by
    induction entries with
    | nil => rfl
    | cons e entries ih => simp [Json.renderEntries, Json.render, ih]
  rw [objectText, styleJson, Json.render, hentries]

theorem parse?_styleJson (entries : List (String × String)) :
    Json.parse? (styleJson entries).render = some (styleJson entries) := by
  have hplain : (styleJson entries).IsPlain := by
    rw [styleJson, Json.isPlain_object, List.forall_mem_map]
    exact fun _ _ => trivial
  have hfloats : (styleJson entries).floats = [] := by
    rw [styleJson, Json.floats_object, List.flatMap_map]
    exact List.flatMap_eq_nil_iff.2 fun _ _ => rfl
  have hread : (styleJson entries).reread = styleJson entries := by
    rw [styleJson, Json.reread, Json.mapFloats_object]
    simp [Json.mapFloats]
  have hlevels : (styleJson entries).isReadable Json.maxLevels := by
    rw [styleJson, Json.maxLevels, Json.isReadable_object]
    simp [Json.isReadable]
  rw [Json.parse?_render hplain (by simp [hfloats]), hread]
  simp [hlevels]

/-- The style object of declarations with semicolons between them is the JSON text of an object, which has their
entries in order. -/
theorem styleObject_written {parts : List StylePart} (h : ∀ part ∈ parts, part.IsWritten) :
    styleObject (";".intercalate (parts.map StylePart.text)) = (styleJson (parts.filterMap StylePart.entry?)).render ∧
      Json.parse? (styleObject (";".intercalate (parts.map StylePart.text))) =
        some (styleJson (parts.filterMap StylePart.entry?)) := by
  have hobject : styleObject (";".intercalate (parts.map StylePart.text)) =
      (styleJson (parts.filterMap StylePart.entry?)).render := by
    have hlist : (";".intercalate (parts.map StylePart.text)).toList =
        [';'].intercalate (parts.map fun part => part.text.toList) := by
      simp [String.toList_intercalate, Function.comp_def]
    have hentries : (declarations (";".intercalate (parts.map StylePart.text)).toList).filterMap styleEntry =
        parts.filterMap StylePart.entry? := by
      rw [hlist]
      cases parts with
      | nil => rfl
      | cons part parts =>
          rw [declarations_intercalate (by simp) (by simpa using fun part hpart => (h part hpart).isPassed)]
          rw [List.filterMap_map]
          exact List.filterMap_congr fun part hpart => StylePart.styleEntry_text (h part hpart)
    rw [styleObject, hentries, objectText_eq_render]
  exact ⟨hobject, by rw [hobject, parse?_styleJson]⟩

def maskedParts : List StylePart :=
  [.declaration " fill" " url(data:image/png;base64,(AA=))", .gap " ", .declaration "-webkit-mask" "a:b ", .gap ""]

theorem styleObject_maskedParts :
    (∀ part ∈ maskedParts, part.IsWritten) ∧
      Json.parse? (styleObject " fill: url(data:image/png;base64,(AA=)); ;-webkit-mask:a:b ;") =
        some (.object [("fill", .string "url(data:image/png;base64,(AA=))"), ("WebkitMask", .string "a:b")]) := by
  have hwritten : ∀ part ∈ maskedParts, part.IsWritten := by decide +kernel
  have hentries : maskedParts.filterMap StylePart.entry? =
      [("fill", "url(data:image/png;base64,(AA=))"), ("WebkitMask", "a:b")] := by
    decide
  have hobject := (styleObject_written hwritten).2
  rw [hentries] at hobject
  exact ⟨hwritten, hobject⟩

end DesignCompiler.Markup

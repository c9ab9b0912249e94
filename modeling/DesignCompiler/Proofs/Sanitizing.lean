import DesignCompiler.Markup.Sanitize
import DesignCompiler.Proofs.Bares
import DesignCompiler.Proofs.Occurrences
import DesignCompiler.Proofs.Tables

namespace DesignCompiler.Markup

def Child.isBlank {ε : Type} : Child ε → Bool
  | text s => Text.trim s = ""
  | _ => false

structure Normalizes (b b' : Bare) : Prop where
  tag_eq : b'.tag = b.tag
  spreads_eq : b'.spreads = b.spreads
  supported : isCustomTag b.tag = false → ∀ name ∈ b'.attributes.keys, isSupportedAttribute name
  nodup_keys : isCustomTag b.tag = false → b'.attributes.keys.Nodup
  lookup_eq : isCustomTag b.tag = false → ∀ name, isSupportedAttribute name →
    b'.attributes.lookup name = (b.attributes.filter fun a => attributeName a.1 = name).getLast?.map Prod.snd
  attributes_eq : isCustomTag b.tag → b'.attributes = b.attributes
  children_eq : b'.children = b.children.filter (!·.isBlank)

theorem attributeName_of_notMem {name : String} (hclass : name ≠ "class") (hcolon : ':' ∉ name.toList)
    (hhyphen : '-' ∉ name.toList) : attributeName name = name := by
  have hnone {c : Char} (h : c ∉ name.toList) : Text.cut? [c] name.toList = none := by
    rw [Text.cut?_eq_none_iff, List.singleton_infix_iff]
    exact h
  have hsplit : Text.splitOnce? ":" name = none := by
    rw [Text.splitOnce?]
    exact Option.map_eq_none_iff.2 (hnone hcolon)
  have hcontains : Text.contains "-" name = false := by
    rw [Text.contains]
    exact Option.isSome_eq_false_iff.2 (Option.isNone_iff_eq_none.2 (hnone hhyphen))
  rw [attributeName, if_neg hclass, hsplit, hcontains]
  split <;> rfl

theorem plain_of_mem_supported :
    ∀ name ∈ supportedAttributes, name ≠ "class" ∧ ':' ∉ name.toList ∧ '-' ∉ name.toList := by
  decide +kernel

theorem attributeName_of_isOpen {name : String} (h : isOpenAttribute name) : attributeName name = name := by
  have hclass : name ≠ "class" := by
    rintro rfl
    revert h
    decide
  rw [attributeName, if_neg hclass, if_pos h]

theorem attributeName_of_isSupported {name : String} (h : isSupportedAttribute name) : attributeName name = name := by
  rw [isSupportedAttribute, Bool.or_eq_true, List.contains_iff_mem] at h
  rcases h with hopen | hmem
  · exact attributeName_of_isOpen hopen
  · obtain ⟨hclass, hcolon, hhyphen⟩ := plain_of_mem_supported name hmem
    exact attributeName_of_notMem hclass hcolon hhyphen

section Attributes

variable {tag : String} (attributes : Table AttrValue)

theorem sanitizeAttributes_of_custom (h : isCustomTag tag) : sanitizeAttributes tag attributes = attributes := by
  rw [sanitizeAttributes, if_pos h]

variable (h : isCustomTag tag = false)

include h

theorem sanitizeAttributes_of_plain : sanitizeAttributes tag attributes =
    Table.ofList ((attributes.map fun a => (attributeName a.1, a.2)).filter fun a => isSupportedAttribute a.1) := by
  rw [sanitizeAttributes, h]
  rfl

theorem isSupported_of_mem_keys {name : String} (hmem : name ∈ (sanitizeAttributes tag attributes).keys) :
    isSupportedAttribute name := by
  rw [sanitizeAttributes_of_plain attributes h, Table.ofList, Table.mem_keys_putAll] at hmem
  rcases hmem with hmem | hmem
  · obtain ⟨a, ha, rfl⟩ := List.mem_map.1 hmem
    exact (List.mem_filter.1 ha).2
  · cases hmem

theorem nodup_keys_sanitizeAttributes : (sanitizeAttributes tag attributes).keys.Nodup := by
  rw [sanitizeAttributes_of_plain attributes h]
  exact Table.nodup_keys_ofList _

theorem lookup_sanitizeAttributes {name : String} (hname : isSupportedAttribute name) :
    (sanitizeAttributes tag attributes).lookup name =
      (attributes.filter fun a => attributeName a.1 = name).getLast?.map Prod.snd := by
  -- Of the renamed attributes, only supported ones come to have a supported name.
  have hfilter : ((attributes.map fun a => (attributeName a.1, a.2)).filter fun a => isSupportedAttribute a.1).filter
      (fun a => a.1 = name) =
        (attributes.filter fun a => attributeName a.1 = name).map fun a => (attributeName a.1, a.2) := by
    rw [List.filter_filter, List.filter_map]
    congr 1
    refine List.filter_congr fun a _ => ?_
    by_cases ha : attributeName a.1 = name
    · simp [ha, hname]
    · simp [ha]
  rw [sanitizeAttributes_of_plain attributes h, Table.ofList, Table.lookup_putAll, List.lookup_nil, Option.or_none,
    Table.lookup_reverse, hfilter, List.getLast?_map, Option.map_map]
  rfl

omit h in
theorem sanitizeAttributes_sanitizeAttributes :
    sanitizeAttributes tag (sanitizeAttributes tag attributes) = sanitizeAttributes tag attributes := by
  by_cases h : isCustomTag tag
  · rw [sanitizeAttributes_of_custom _ h]
  · rw [Bool.not_eq_true] at h
    have hsupported (a) (ha : a ∈ sanitizeAttributes tag attributes) : isSupportedAttribute a.1 :=
      isSupported_of_mem_keys attributes h (List.mem_map_of_mem ha)
    have hmap : (sanitizeAttributes tag attributes).map (fun a => (attributeName a.1, a.2)) =
        sanitizeAttributes tag attributes := by
      conv_rhs => rw [← List.map_id (sanitizeAttributes tag attributes)]
      refine List.map_congr_left fun a ha => Prod.ext ?_ rfl
      exact attributeName_of_isSupported (hsupported a ha)
    conv_lhs => rw [sanitizeAttributes_of_plain _ h]
    rw [hmap, List.filter_eq_self.2 hsupported, Table.ofList_of_nodup (nodup_keys_sanitizeAttributes attributes h)]

end Attributes

def Bare.sanitized (b : Bare) : Bare :=
  { b with attributes := sanitizeAttributes b.tag b.attributes, children := b.children.filter (!·.isBlank) }

theorem Bare.sanitized_sanitized (b : Bare) : b.sanitized.sanitized = b.sanitized := by
  simp only [Bare.sanitized, sanitizeAttributes_sanitizeAttributes, List.filter_filter, Bool.and_self]

theorem normalizes_sanitized (b : Bare) : Normalizes b b.sanitized where
  tag_eq := rfl
  spreads_eq := rfl
  supported h _ hname := isSupported_of_mem_keys b.attributes h hname
  nodup_keys := nodup_keys_sanitizeAttributes b.attributes
  lookup_eq h _ := lookup_sanitizeAttributes b.attributes h
  attributes_eq := sanitizeAttributes_of_custom b.attributes
  children_eq := rfl

theorem map_sanitizeChildren (children : List (Child Element)) :
    (sanitizeChildren children).map (Child.map fun _ => ()) =
      (children.map (Child.map fun _ => ())).filter (!·.isBlank) := by
  induction children with
  | nil => rfl
  | cons c children ih =>
      cases c with
      | element e => simp [sanitizeChildren, Child.map, Child.isBlank, ih]
      | text s =>
          rw [sanitizeChildren]
          by_cases hs : Text.trim s = "" <;> simp [hs, Child.map, Child.isBlank, ih]
      | expression code => simp [sanitizeChildren, Child.map, Child.isBlank, ih]

theorem bare_sanitize (e : Element) : (sanitize e).bare = e.bare.sanitized := by
  obtain ⟨tag, attributes, spreads, children⟩ := e
  rw [sanitize, Element.bare, map_sanitizeChildren]
  rfl

mutual

/-- Each element is sanitized by itself, and none is lost. -/
theorem bares_sanitize : ∀ e : Element, (sanitize e).bares = e.bares.map Bare.sanitized
  | ⟨tag, attributes, spreads, children⟩ => by
    rw [Element.bares_eq, Element.bares_eq, bare_sanitize, List.map_cons, ← baresOfAll_sanitizeChildren children,
      sanitize]

theorem baresOfAll_sanitizeChildren : ∀ children : List (Child Element),
    Element.baresOfAll (sanitizeChildren children) = (Element.baresOfAll children).map Bare.sanitized
  | [] => rfl
  | .element e :: rest => by
    rw [sanitizeChildren, Element.baresOfAll_element, Element.baresOfAll_element, List.map_append, bares_sanitize e,
      baresOfAll_sanitizeChildren rest]
  | .text s :: rest => by
    rw [sanitizeChildren, Element.baresOfAll_text, ← baresOfAll_sanitizeChildren rest]
    split
    · rfl
    · rw [Element.baresOfAll_text]
  | .expression code :: rest => by
    rw [sanitizeChildren, Element.baresOfAll_expression, Element.baresOfAll_expression,
      baresOfAll_sanitizeChildren rest]

end

/-- Every element of a tree, in document order, becomes a normal one, at every depth. There are no blank texts in
what comes out, and sanitizing it again changes nothing. -/
theorem sanitize_normalizes (e : Element) :
    List.Forall₂ Normalizes e.bares (sanitize e).bares ∧
      (∀ d ∈ (sanitize e).parts, ∀ s, .text s ∈ d.children → Text.trim s ≠ "") ∧
      sanitize (sanitize e) = sanitize e := by
  refine ⟨?_, ?_, ?_⟩
  · rw [bares_sanitize, List.forall₂_map_right_iff, List.forall₂_same]
    exact fun b _ => normalizes_sanitized b
  · intro d hd s hs hblank
    have hbare : d.bare ∈ e.bares.map Bare.sanitized := by
      rw [← bares_sanitize]
      exact List.mem_map_of_mem hd
    obtain ⟨b, -, hb⟩ := List.mem_map.1 hbare
    have hchild : .text s ∈ b.sanitized.children := by
      rw [hb]
      exact List.mem_map_of_mem (f := Child.map fun _ => ()) hs
    have hkept := (List.mem_filter.1 hchild).2
    simp [Child.isBlank, hblank] at hkept
  · apply Element.bares_injective
    rw [bares_sanitize, bares_sanitize, List.map_map]
    exact List.map_congr_left fun b _ => b.sanitized_sanitized

end DesignCompiler.Markup

import Mathlib.Data.List.Basic
import DesignCompiler.Markup.Element

namespace DesignCompiler.Markup

def Child.map {ε δ : Type} (f : ε → δ) : Child ε → Child δ
  | element e => element (f e)
  | text s => text s
  | expression code => expression code

deriving instance DecidableEq for Child

/-- An element with a place for each element right below it. -/
structure Bare where
  tag : String
  attributes : Table AttrValue
  spreads : List String
  children : List (Child Unit)
  deriving DecidableEq

def literal? (name : String) (attributes : Table AttrValue) : Option String :=
  match attributes.lookup name with
  | some (.literal value) => some value
  | _ => none

def Bare.id? (b : Bare) : Option String := literal? "id" b.attributes

namespace Element

def bare (e : Element) : Bare := ⟨e.tag, e.attributes, e.spreads, e.children.map (Child.map fun _ => ())⟩

mutual

def parts : Element → List Element
  | ⟨tag, attributes, spreads, children⟩ => ⟨tag, attributes, spreads, children⟩ :: partsOfAll children

def partsOfAll : List (Child Element) → List Element
  | [] => []
  | .element e :: rest => parts e ++ partsOfAll rest
  | .text _ :: rest => partsOfAll rest
  | .expression _ :: rest => partsOfAll rest

end

def bares (e : Element) : List Bare := e.parts.map bare

def baresOfAll (children : List (Child Element)) : List Bare := (partsOfAll children).map bare

theorem bares_eq (e : Element) : e.bares = e.bare :: baresOfAll e.children := by
  obtain ⟨tag, attributes, spreads, children⟩ := e
  rw [bares, parts]
  rfl

@[simp]
theorem baresOfAll_nil : baresOfAll [] = [] := rfl

@[simp]
theorem baresOfAll_element (e : Element) (rest : List (Child Element)) :
    baresOfAll (.element e :: rest) = e.bares ++ baresOfAll rest := by
  rw [baresOfAll, partsOfAll, List.map_append]
  rfl

@[simp]
theorem baresOfAll_text (s : String) (rest : List (Child Element)) :
    baresOfAll (.text s :: rest) = baresOfAll rest := by
  rw [baresOfAll, partsOfAll]
  rfl

@[simp]
theorem baresOfAll_expression (code : String) (rest : List (Child Element)) :
    baresOfAll (.expression code :: rest) = baresOfAll rest := by
  rw [baresOfAll, partsOfAll]
  rfl

mutual

theorem eq_of_bares_append : ∀ (e d : Element) (s t : List Bare), e.bares ++ s = d.bares ++ t → e = d ∧ s = t
  | ⟨tag, attributes, spreads, children⟩, ⟨tag', attributes', spreads', children'⟩, s, t, h => by
    rw [bares_eq, bares_eq, List.cons_append, List.cons_append, List.cons.injEq, bare, bare, Bare.mk.injEq] at h
    obtain ⟨⟨rfl, rfl, rfl, hchildren⟩, hrest⟩ := h
    obtain ⟨rfl, rfl⟩ := eq_of_baresOfAll_append children children' s t hchildren hrest
    exact ⟨rfl, rfl⟩

theorem eq_of_baresOfAll_append : ∀ (c d : List (Child Element)) (s t : List Bare),
    c.map (Child.map fun _ => ()) = d.map (Child.map fun _ => ()) → baresOfAll c ++ s = baresOfAll d ++ t →
      c = d ∧ s = t
  | [], [], s, t, _, h => ⟨rfl, h⟩
  | .element e :: c, .element e' :: d, s, t, hc, h => by
    rw [baresOfAll_element, baresOfAll_element, List.append_assoc, List.append_assoc] at h
    obtain ⟨rfl, hrest⟩ := eq_of_bares_append e e' _ _ h
    obtain ⟨rfl, rfl⟩ := eq_of_baresOfAll_append c d s t (List.cons.inj hc).2 hrest
    exact ⟨rfl, rfl⟩
  | .text x :: c, .text y :: d, s, t, hc, h => by
    obtain ⟨hxy, htail⟩ := List.cons.inj hc
    cases hxy
    obtain ⟨rfl, rfl⟩ := eq_of_baresOfAll_append c d s t htail (by simpa using h)
    exact ⟨rfl, rfl⟩
  | .expression x :: c, .expression y :: d, s, t, hc, h => by
    obtain ⟨hxy, htail⟩ := List.cons.inj hc
    cases hxy
    obtain ⟨rfl, rfl⟩ := eq_of_baresOfAll_append c d s t htail (by simpa using h)
    exact ⟨rfl, rfl⟩

end

theorem bares_injective {e d : Element} (h : e.bares = d.bares) : e = d :=
  (eq_of_bares_append e d [] [] (by rw [h])).1

instance : DecidableEq Element := fun _ _ => decidable_of_iff _ ⟨bares_injective, congrArg bares⟩

mutual

theorem find?_eq (id : String) : ∀ e : Element, e.find? id = e.parts.find? fun d => d.id? = some id
  | ⟨tag, attributes, spreads, children⟩ => by
    have hid : Element.id? ⟨tag, attributes, spreads, []⟩ = Element.id? ⟨tag, attributes, spreads, children⟩ := rfl
    rw [find?, parts, List.find?_cons, hid]
    by_cases h : Element.id? ⟨tag, attributes, spreads, children⟩ = some id
    · simp [h]
    · simp [h, findIn?_eq id children]

theorem findIn?_eq (id : String) : ∀ children : List (Child Element),
    findIn? id children = (partsOfAll children).find? fun d => d.id? = some id
  | [] => rfl
  | .element e :: rest => by
    rw [findIn?, partsOfAll, List.find?_append, find?_eq id e, findIn?_eq id rest]
  | .text _ :: rest => by
    rw [findIn?, partsOfAll, findIn?_eq id rest]
    simp
  | .expression _ :: rest => by
    rw [findIn?, partsOfAll, findIn?_eq id rest]
    simp

end

theorem exists_xml_of_parse {s : String} {e : Element} (h : parse s = .ok e) :
    ∃ root, Xml.parse s = .ok root ∧ ofXml root = e := by
  rw [parse] at h
  cases hparse : Xml.parse s with
  | error failure =>
      rw [hparse] at h
      cases h
  | ok root =>
      rw [hparse] at h
      exact ⟨root, rfl, Except.ok.inj h⟩

end Element

end DesignCompiler.Markup

import DesignCompiler.Proofs.Bares
import DesignCompiler.Proofs.Expansions
import DesignCompiler.Proofs.Occurrences
import DesignCompiler.Proofs.Tables
import DesignCompiler.Assets.Resolve
import DesignCompiler.Markup.Element

namespace DesignCompiler.Assets

def fitRaw : Xml.RawAttribute := ⟨⟨[], fitName.toList⟩, "none".toList⟩

def fit : Xml.Attribute := ⟨none, fitName, "none"⟩

theorem fitRaw_isPlain : fitRaw.IsPlain fit where
  space := rfl
  name := rfl
  read entities budget references := by
    have hpieces : Xml.pieces fitRaw.value = [.plain 'n', .plain 'o', .plain 'n', .plain 'e'] := by rfl
    rw [hpieces]
    cases budget <;> rfl
  unbound := by decide

end DesignCompiler.Assets

namespace DesignCompiler.Xml

open Assets

variable {s rest after : List Char} {m n : Nat} {raw : List RawAttribute} {close : TagEnd}

theorem takeAttributes?_of_le {r : List RawAttribute × TagEnd × List Char} (h : takeAttributes? m s = some r)
    (hle : m ≤ n) : takeAttributes? n s = some r := by
  induction m generalizing n s r with
  | zero => cases h
  | succ m ih =>
      obtain ⟨n, rfl⟩ : ∃ k, n = k + 1 := ⟨n - 1, by omega⟩
      cases s with
      | nil => exact h
      | cons c s =>
          rw [takeAttributes?] at h ⊢
          · split at h
            · cases h
            · exact h
            · exact h
            · split at h
              · next hblank =>
                -- only what comes after the first attribute is read with less fuel
                simp only [Option.bind_eq_bind, Option.bind_eq_some_iff] at h
                obtain ⟨first, hfirst, more, hmore, h⟩ := h
                rw [if_pos hblank, hfirst]
                change Option.bind (takeAttributes? n first.2) _ = _
                rw [ih hmore (by omega)]
                exact h
              · cases h
          · simp
          · simp

theorem takeAttribute?_fitText (rest : List Char) : takeAttribute? (fitText.tail ++ rest) = some (fitRaw, rest) := rfl

theorem takeAttributes?_fitText (h : takeAttributes? n rest = some (raw, close, after)) :
    takeAttributes? (n + 1) (fitText ++ rest) = some (fitRaw :: raw, close, after) := by
  change (takeAttribute? (fitText.tail ++ rest)).bind (fun p => (takeAttributes? n p.2).bind fun q =>
    some (p.1 :: q.1, q.2)) = _
  rw [takeAttribute?_fitText, Option.bind_some, h]
  rfl

theorem takeOpening?_eq_opening_iff {name : QName} {empty : Bool} :
    takeOpening? n s = some (.opening name raw empty, after) ↔
      ∃ rest, takeQName? s = some (name, rest) ∧
        takeAttributes? n rest = some (raw, if empty then .emptyTag else .openTag, after) := by
  simp only [takeOpening?, Option.bind_eq_bind, Option.bind_eq_some_iff]
  constructor
  · rintro ⟨⟨name, rest⟩, hname, ⟨raw, close, after⟩, hattributes, h⟩
    cases close <;> cases h <;> exact ⟨rest, hname, hattributes⟩
  · rintro ⟨rest, hname, hattributes⟩
    exact ⟨_, hname, _, hattributes, by cases empty <;> rfl⟩

theorem takeOpening?_of_le {r : Token × List Char} (h : takeOpening? m s = some r) (hle : m ≤ n) :
    takeOpening? n s = some r := by
  simp only [takeOpening?, Option.bind_eq_bind, Option.bind_eq_some_iff] at h ⊢
  obtain ⟨name, hname, attributes, hattributes, h⟩ := h
  exact ⟨name, hname, attributes, takeAttributes?_of_le hattributes hle, h⟩

def svgName : QName := ⟨[], "svg".toList⟩

theorem eq_of_takeQName?_svg (h : takeQName? ("svg".toList ++ rest) = some (svgName, after)) : after = rest := by
  let isPartChar (c : Char) := c != ':' && isNameChar c
  have hfirst : ("svg".toList ++ rest).takeWhile isPartChar = "svg".toList ++ rest.takeWhile isPartChar := rfl
  have hrest : ("svg".toList ++ rest).dropWhile isPartChar = rest.dropWhile isPartChar := rfl
  unfold takeQName? at h
  dsimp only at h
  rw [hfirst, hrest] at h
  split at h
  · split at h
    · cases h
    · cases h
  · rw [Option.ite_none_right_eq_some] at h
    have hname : "svg".toList ++ rest.takeWhile isPartChar = "svg".toList ++ [] :=
      congrArg (fun p => p.1.part) (Option.some.inj h.2)
    have hafter : rest.dropWhile isPartChar = after := congrArg Prod.snd (Option.some.inj h.2)
    rw [← hafter]
    calc rest.dropWhile isPartChar = rest.takeWhile isPartChar ++ rest.dropWhile isPartChar := by
          rw [List.append_cancel_left hname, List.nil_append]
      _ = rest := List.takeWhile_append_dropWhile

theorem takeQName?_svg_fitText : takeQName? ("svg".toList ++ (fitText ++ rest)) = some (svgName, fitText ++ rest) := rfl

theorem takeOpening?_fitText {empty : Bool}
    (h : takeOpening? m ("svg".toList ++ rest) = some (.opening svgName raw empty, after)) (hle : m + 1 ≤ n) :
    takeOpening? n ("svg".toList ++ (fitText ++ rest)) = some (.opening svgName (fitRaw :: raw) empty, after) := by
  obtain ⟨rest', hname, hattributes⟩ := takeOpening?_eq_opening_iff.1 h
  obtain rfl := eq_of_takeQName?_svg hname
  exact takeOpening?_eq_opening_iff.2
    ⟨_, takeQName?_svg_fitText, takeAttributes?_of_le (takeAttributes?_fitText hattributes) hle⟩

end DesignCompiler.Xml

namespace DesignCompiler.Assets

open Markup

def rootName? (raw : String) : Option Xml.QName :=
  (Xml.takeStart? raw).bind fun p => (Xml.takeQName? p.2).map Prod.fst

def afterMark? (raw : String) : Option (List Char) := (Text.cut? "<svg".toList raw.toList).map Prod.snd

def FollowsRoot (raw : String) (rest : List Char) : Prop :=
  (Xml.takeStart? raw).map Prod.snd = some ("svg".toList ++ rest)

def Mentions (rest : List Char) : Prop := fitName.toList <:+: rest.takeWhile (· != '>')

/-- No attribute is put into the text, since it is mentioned where the tag of the root seems to be. -/
def IsKept (raw : String) : Prop := ∀ rest, afterMark? raw = some rest → Mentions rest

/-- What seems to be the tag of the root is that tag. -/
def FindsRoot (raw : String) : Prop := ∃ rest, afterMark? raw = some rest ∧ FollowsRoot raw rest

variable {raw : String} {before rest : List Char} {root root' : Xml.Element}

theorem mentions_iff : Mentions rest ↔ (Text.cut? fitName.toList (rest.takeWhile (· != '>'))).isSome := by
  rw [Mentions, ← not_iff_not, Option.not_isSome_iff_eq_none, Text.cut?_eq_none_iff]

theorem exists_cut_of_not_isKept (h : ¬IsKept raw) :
    ∃ before rest, Text.cut? "<svg".toList raw.toList = some (before, rest) ∧ ¬Mentions rest := by
  rw [IsKept, not_forall] at h
  obtain ⟨rest, h⟩ := h
  rw [Classical.not_imp] at h
  obtain ⟨⟨before, rest'⟩, hcut, heq⟩ := Option.map_eq_some_iff.1 h.1
  obtain rfl : rest' = rest := heq
  exact ⟨before, rest', hcut, h.2⟩

theorem findsRoot_iff (hcut : Text.cut? "<svg".toList raw.toList = some (before, rest)) :
    FindsRoot raw ↔ FollowsRoot raw rest := by
  have hrest : afterMark? raw = some rest := by rw [afterMark?, hcut, Option.map_some]
  simp [FindsRoot, hrest]

theorem stretch_of_isKept (h : IsKept raw) : stretch raw = raw := by
  have hchars : stretchChars raw.toList = raw.toList := by
    cases hcut : Text.cut? "<svg".toList raw.toList with
    | none => rw [stretchChars, hcut]
    | some p =>
        rw [stretchChars, hcut]
        exact if_pos (mentions_iff.1 (h p.2 (by rw [afterMark?, hcut, Option.map_some])))
  rw [stretch, hchars, String.ofList_toList]

theorem stretch_of_not_mentions (hcut : Text.cut? "<svg".toList raw.toList = some (before, rest))
    (h : ¬Mentions rest) : stretch raw = .ofList (before ++ Xml.tag ("vg".toList ++ (fitText ++ rest))) := by
  have hchars : stretchChars raw.toList = before ++ "<svg preserveAspectRatio=\"none\"".toList ++ rest := by
    rw [stretchChars, hcut]
    exact if_neg (mt mentions_iff.2 h)
  rw [stretch, hchars, List.append_assoc]
  rfl

theorem eq_ofList_of_cut (hcut : Text.cut? "<svg".toList raw.toList = some (before, rest)) :
    raw = .ofList (before ++ Xml.tag ("vg".toList ++ rest)) := by
  rw [← String.ofList_toList (s := raw), Text.eq_append_of_cut? hcut, List.append_assoc]
  rfl

/-- What the text is read as once the attribute is in it. -/
theorem parse_stretch (h : Xml.parse raw = .ok root) (hname : rootName? raw = some Xml.svgName) (hkept : ¬IsKept raw)
    (hfinds : FindsRoot raw) :
    Xml.parse (stretch raw) =
      if root.attributes.any fit.sharesName then .error .malformed else .ok (root.mapAttributes (fit :: ·)) := by
  obtain ⟨before, rest, hcut, hmention⟩ := exists_cut_of_not_isKept hkept
  obtain ⟨⟨entities, text⟩, hstart, htext⟩ := Option.map_eq_some_iff.1 ((findsRoot_iff hcut).1 hfinds)
  obtain rfl : text = "svg".toList ++ rest := htext
  obtain ⟨name, attributes, empty, after, hopening⟩ := Xml.exists_opening_of_parse h hstart
  obtain rfl : name = Xml.svgName := by
    obtain ⟨_, htake, -⟩ := Xml.takeOpening?_eq_opening_iff.1 hopening
    rw [rootName?, hstart, Option.bind_some, htake] at hname
    exact Option.some.inj hname
  have hstart' : Xml.takeStart? (stretch raw) = some (entities, "svg".toList ++ (fitText ++ rest)) := by
    rw [eq_ofList_of_cut hcut] at hstart
    rw [stretch_of_not_mentions hcut hmention]
    exact Xml.takeStart?_append_tag hstart _
  -- the tag has one attribute more, which takes one step more to read
  have hfuel : ("svg".toList ++ rest).length + 1 + 1 ≤ ("svg".toList ++ (fitText ++ rest)).length + 1 := by
    have hlength : fitText.length = 27 := rfl
    simp only [List.length_append, hlength]
    omega
  exact Xml.parse_front fitRaw_isPlain hstart hopening hstart' (Xml.takeOpening?_fitText hopening hfuel) h

theorem exists_takeStart?_of_parse (h : Xml.parse raw = .ok root) :
    ∃ entities text, Xml.takeStart? raw = some (entities, text) := by
  obtain ⟨⟨entities, text⟩, hstart, -⟩ := Xml.exists_of_bind_eq_ok h
  exact ⟨entities, text, Xml.eq_some_of_orMalformed hstart⟩

/-- Elsewhere the attribute may get into an entity, but it gives the root no other names. -/
theorem alike_attributes_of_parse_stretch (h : Xml.parse raw = .ok root) (h' : Xml.parse (stretch raw) = .ok root')
    (hkept : ¬IsKept raw) (hfinds : ¬FindsRoot raw) :
    List.Forall₂ Xml.Attribute.Alike root.attributes root'.attributes := by
  obtain ⟨before, rest, hcut, hmention⟩ := exists_cut_of_not_isKept hkept
  obtain ⟨entities, text, hstart⟩ := exists_takeStart?_of_parse h
  obtain ⟨entities', text', hstart'⟩ := exists_takeStart?_of_parse h'
  obtain ⟨name, attributes, empty, after, hopening⟩ := Xml.exists_opening_of_parse h hstart
  obtain ⟨name', attributes', empty', after', hopening'⟩ := Xml.exists_opening_of_parse h' hstart'
  have hparallel : Xml.Parallel rest (entities, '<' :: text) (entities', '<' :: text') := by
    rw [eq_ofList_of_cut hcut] at hstart
    rw [stretch_of_not_mentions hcut hmention] at hstart'
    exact Xml.parallel_takeStart? _ _ _ _ ⟨before, rfl, rfl⟩ (congrArg _ hstart) (congrArg _ hstart')
  have htoken : Xml.Token.opening name attributes empty = .opening name' attributes' empty' := by
    rcases hparallel.2 with heq | ⟨u, hu, hu'⟩
    · obtain rfl : text = text' := (List.cons.inj heq).2
      rw [hopening'] at hopening
      exact congrArg Prod.fst (Option.some.inj hopening).symm
    · cases u with
      | nil =>
          refine absurd ((findsRoot_iff hcut).2 ?_) hfinds
          rw [FollowsRoot, hstart, Option.map_some, (List.cons.inj hu).2]
          rfl
      | cons c u =>
          have hlonger : Xml.Stretched rest text text' := ⟨u, (List.cons.inj hu).2, (List.cons.inj hu').2⟩
          exact Xml.leads_takeOpening? (max (text.length + 1) (text'.length + 1)) _ _ _ _ hlonger
            (Xml.takeOpening?_of_le hopening (Nat.le_max_left ..)) (Xml.takeOpening?_of_le hopening' (Nat.le_max_right ..))
  cases htoken
  exact Xml.alike_attributes_of_parse hparallel.1 hstart hopening h hstart' hopening' h'

/-- A tree whose root stretches, unless it said otherwise before, and all else as it was. -/
structure Stretches (e e' : Element) : Prop where
  tag : e'.tag = e.tag
  spreads : e'.spreads = e.spreads
  children : e'.children = e.children
  fit : e'.attributes.lookup fitName = some ((e.attributes.lookup fitName).getD (.literal "none"))
  others : Table.erase fitName e'.attributes = Table.erase fitName e.attributes

theorem stretches_self_iff {e : Element} : Stretches e e ↔ Table.contains fitName e.attributes := by
  refine ⟨fun h => ?_, fun h => ⟨rfl, rfl, rfl, ?_, rfl⟩⟩
  · rw [Table.contains, h.fit]
    rfl
  · obtain ⟨value, hvalue⟩ := Option.isSome_iff_exists.1 h
    rw [hvalue]
    rfl

theorem Stretches.eq_of_keys_eq {e e' : Element} (h : Stretches e e') (hnodup : (Table.keys e.attributes).Nodup)
    (hkeys : Table.keys e'.attributes = Table.keys e.attributes) : e' = e := by
  have hcontains : e.attributes.lookup fitName ≠ none := by
    rw [Ne, Table.lookup_eq_none, ← hkeys, ← Table.lookup_eq_none, h.fit]
    exact Option.some_ne_none _
  have hattributes : e'.attributes = e.attributes := by
    refine Table.eq_of_erase_eq (hkeys ▸ hnodup) hkeys ?_ h.others
    obtain ⟨value, hvalue⟩ := Option.ne_none_iff_exists'.1 hcontains
    rw [h.fit, hvalue, Option.getD_some]
  obtain ⟨tag, attributes, spreads, children⟩ := e
  obtain ⟨tag', attributes', spreads', children'⟩ := e'
  obtain ⟨rfl, rfl, rfl, -, -⟩ := h
  obtain rfl : attributes' = attributes := hattributes
  rfl

theorem stretches_mapAttributes (root : Xml.Element) :
    Stretches (.ofXml root) (.ofXml (root.mapAttributes (fit :: ·))) := by
  obtain ⟨space, name, attributes, children⟩ := root
  simp only [Xml.Element.mapAttributes, Element.ofXml]
  exact ⟨rfl, rfl, rfl, Table.lookup_ofList_cons .., Table.erase_ofList_cons ..⟩

theorem attributes_ofXml (root : Xml.Element) :
    (Element.ofXml root).attributes = .ofList (root.attributes.map fun a => (attributeKey a, .literal a.value)) := by
  obtain ⟨space, name, attributes, children⟩ := root
  rw [Element.ofXml]

theorem keys_ofXml_eq (h : List.Forall₂ Xml.Attribute.Alike root.attributes root'.attributes) :
    Table.keys (Element.ofXml root').attributes = Table.keys (Element.ofXml root).attributes := by
  rw [attributes_ofXml, attributes_ofXml]
  refine Table.keys_putAll_congr ?_ rfl
  generalize root.attributes = attributes at h
  generalize root'.attributes = attributes' at h
  induction h with
  | nil => rfl
  | cons ha _ ih => exact congr_arg₂ List.cons ha.key_eq.symm ih

/-- An attribute that is put elsewhere does not make a root stretch that did not before. -/
theorem eq_of_stretches_stretch {e : Element} (h : Xml.parse raw = .ok root) (he : Element.parse (stretch raw) = .ok e)
    (hkept : ¬IsKept raw) (hfinds : ¬FindsRoot raw) (hstretches : Stretches (.ofXml root) e) : e = .ofXml root := by
  obtain ⟨root', h', rfl⟩ := Element.exists_xml_of_parse he
  refine hstretches.eq_of_keys_eq ?_ (keys_ofXml_eq (alike_attributes_of_parse_stretch h h' hkept hfinds))
  rw [attributes_ofXml]
  exact Table.nodup_keys_ofList _

/-- A root that has the attribute stretches if the text is kept. If the text is not kept, the attribute has to get into
the root's tag, which must not have it, or to a place where it changes nothing in the tree of a root that has it. -/
theorem stretches_stretch_iff (h : Xml.parse raw = .ok root) (hname : rootName? raw = some Xml.svgName) :
    (∃ e, Element.parse (stretch raw) = .ok e ∧ Stretches (.ofXml root) e) ↔
      (IsKept raw ∧ Table.contains fitName (Element.ofXml root).attributes) ∨
        (¬IsKept raw ∧ FindsRoot raw ∧ ∀ a ∈ root.attributes, ¬fit.sharesName a) ∨
        (¬IsKept raw ∧ ¬FindsRoot raw ∧ Table.contains fitName (Element.ofXml root).attributes ∧
          Element.parse (stretch raw) = .ok (.ofXml root)) := by
  by_cases hkept : IsKept raw
  · rw [stretch_of_isKept hkept, Element.parse, h]
    simp only [hkept, true_and, not_true, false_and, or_false, ← stretches_self_iff]
    constructor
    · rintro ⟨e, he, hstretches⟩
      cases he
      exact hstretches
    · exact fun hstretches => ⟨_, rfl, hstretches⟩
  · by_cases hfinds : FindsRoot raw
    · rw [Element.parse, parse_stretch h hname hkept hfinds]
      simp only [hkept, hfinds, false_and, false_or, not_false_eq_true, true_and, not_true, or_false]
      split
      · next hany => simpa [Except.map] using hany
      · next hany =>
        refine iff_of_true ⟨_, rfl, stretches_mapAttributes root⟩ ?_
        simpa using hany
    · simp only [hkept, hfinds, false_and, false_or, not_false_eq_true, true_and]
      constructor
      · rintro ⟨e, he, hstretches⟩
        obtain rfl := eq_of_stretches_stretch h he hkept hfinds hstretches
        exact ⟨stretches_self_iff.1 hstretches, he⟩
      · exact fun hsame => ⟨_, hsame.2, stretches_self_iff.2 hsame.1⟩

def box : String := "<!-- box --><svg width=\"1\"><g/></svg>"

theorem stretches_box : ∃ root e, Xml.parse box = .ok root ∧ Element.parse (stretch box) = .ok e ∧
    Stretches (.ofXml root) e := by
  have hunmarked : (Xml.parse box).toOption.any (fun root => root.attributes.all fun a => !fit.sharesName a) := by
    decide +kernel
  have hrest : afterMark? box = some " width=\"1\"><g/></svg>".toList := by decide +kernel
  have hfirst : FollowsRoot box " width=\"1\"><g/></svg>".toList := by
    unfold FollowsRoot
    decide
  have hmention : ¬Mentions " width=\"1\"><g/></svg>".toList := by
    rw [mentions_iff]
    decide
  cases hparse : Xml.parse box with
  | error e =>
      rw [hparse] at hunmarked
      cases hunmarked
  | ok root =>
      rw [hparse] at hunmarked
      have hshares : ∀ a ∈ root.attributes, ¬fit.sharesName a := by simpa [Except.toOption] using hunmarked
      obtain ⟨e, he, hstretches⟩ := (stretches_stretch_iff hparse (by decide)).2
        (.inr (.inl ⟨fun hkept => hmention (hkept _ hrest), ⟨_, hrest, hfirst⟩, hshares⟩))
      exact ⟨root, e, rfl, he, hstretches⟩

/-- A comment before the root gets the attribute. -/
theorem not_forall_stretches : ¬∀ raw e, Element.parse raw = .ok e → rootName? raw = some Xml.svgName →
    ∃ e', Element.parse (stretch raw) = .ok e' ∧ Stretches e e' := by
  intro h
  have hparse : Element.parse "<!-- <svg> --><svg/>" = .ok { tag := "svg" } := by decide +kernel
  have hstretched : Element.parse (stretch "<!-- <svg> --><svg/>") = .ok { tag := "svg" } := by decide +kernel
  obtain ⟨e, he, hstretches⟩ := h _ _ hparse (by decide)
  rw [hstretched] at he
  cases he
  exact absurd hstretches.fit (by decide)

end DesignCompiler.Assets

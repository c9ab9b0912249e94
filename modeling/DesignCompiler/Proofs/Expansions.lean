import DesignCompiler.Markup.Element
import DesignCompiler.Proofs.Roots
import DesignCompiler.Proofs.Strays

namespace DesignCompiler.Xml

variable {entities entities' : Entities} {s v v' done done' mark : List Char}

theorem IsFlat.takeReference? : IsFlat (rest? takeReference?) := by
  have hdigits {p : Char → Bool} (hp : p '<' = false) (s : List Char) :
      '<' ∉ s.takeWhile p ∧ s = s.takeWhile p ++ s.drop (s.takeWhile p).length := by
    refine ⟨fun hmem => ?_, List.prefix_append_drop (List.takeWhile_prefix p)⟩
    rw [List.mem_takeWhile_imp hmem] at hp
    cases hp
  have hmark : IsFlat (Xml.need? ";") := need? (by decide)
  intro s r hr
  obtain ⟨reference, h⟩ := rest?_eq_some_iff.1 hr
  have hend {v m : List Char} {c : Reference} (hv : '<' ∉ v) (hs : s = v ++ m)
      (h : ((Xml.need? ";" m).bind fun rest => some (c, rest)) = some (reference, r)) : ∃ w, '<' ∉ w ∧ s = w ++ r := by
    obtain ⟨r', hr, heq⟩ := Option.bind_eq_some_iff.1 h
    cases heq
    obtain ⟨w, hw, rfl⟩ := hmark m r hr
    exact ⟨v ++ w, by simp [hv, hw], by rw [hs, List.append_assoc]⟩
  rw [Xml.takeReference?.eq_def] at h
  split at h
  · next t =>
    dsimp only at h
    split at h
    · cases h
    · obtain ⟨c, -, h⟩ := Option.bind_eq_some_iff.1 h
      obtain ⟨hw, hs⟩ := hdigits (p := fun c => (Json.hexValue? c).isSome) (by decide) t
      exact hend (v := '#' :: 'x' :: _) (by simp [hw]) (congrArg (fun t => '#' :: 'x' :: t) hs) h
  · next t _ =>
    dsimp only at h
    split at h
    · cases h
    · obtain ⟨c, -, h⟩ := Option.bind_eq_some_iff.1 h
      obtain ⟨hw, hs⟩ := hdigits (p := Char.isDigit) (by decide) t
      exact hend (v := '#' :: _) (by simp [hw]) (congrArg ('#' :: ·) hs) h
  · obtain ⟨⟨name, m⟩, hname, h⟩ := Option.bind_eq_some_iff.1 h
    obtain ⟨w, hw, hs⟩ := takeName? _ m (rest?_eq_some_iff.2 ⟨name, hname⟩)
    exact hend hw hs h

/-- A `<` is no part of a reference. -/
theorem mem_takePieces {fuel : Nat} (h : '<' ∈ s) :
    .plain '<' ∈ takePieces fuel s ∨ .malformed ∈ takePieces fuel s := by
  induction fuel, s using takePieces.induct with
  | case1 => cases h
  | case2 s hs =>
      rw [takePieces]
      · exact .inr List.mem_cons_self
      · exact hs
  | case3 fuel s reference rest hreference ih =>
      obtain ⟨w, hw, rfl⟩ := IsFlat.takeReference? s rest (rest?_eq_some_iff.2 ⟨reference, hreference⟩)
      have hrest : '<' ∈ rest := by simpa [hw] using h
      rw [takePieces, hreference]
      exact (ih hrest).imp (List.mem_cons_of_mem _) (List.mem_cons_of_mem _)
  | case4 fuel s hnone =>
      rw [takePieces, hnone]
      exact .inr List.mem_cons_self
  | case5 fuel c s hc ih =>
      rw [takePieces]
      · rcases List.mem_cons.1 h with rfl | h
        · exact .inl List.mem_cons_self
        · exact (ih h).imp (List.mem_cons_of_mem _) (List.mem_cons_of_mem _)
      · exact hc

theorem mem_pushValueChar (h : '<' ∈ done) (c : Char) (next : Option Char) : '<' ∈ pushValueChar c next done := by
  unfold pushValueChar
  split
  · exact h
  · split <;> exact List.mem_cons_of_mem _ h

section

variable {inEntity : Bool} {enter enter' : List Piece → List Char → Nat → Option (List Char × Nat)}
  {ps : List Piece} {references references' budget : Nat} {out out' : List Char × Nat}

/-- A value that can be read keeps its `<`, whether it has been read already or not. -/
theorem mem_of_readValue?
    (henter : ∀ ps done references out, enter ps done references = some out → '<' ∈ done → '<' ∈ out.1)
    (h : readValue? entities inEntity enter ps done references = some out)
    (hlt : '<' ∈ done ∨ .plain '<' ∈ ps ∨ .malformed ∈ ps) : '<' ∈ out.1 := by
  induction ps generalizing done references with
  | nil =>
      cases h
      simpa using hlt
  | cons piece ps ih =>
      cases piece with
      | plain c =>
          refine ih h ?_
          rcases hlt with hlt | hlt | hlt
          · exact .inl (mem_pushValueChar hlt c _)
          · rcases List.mem_cons.1 hlt with heq | hlt
            · cases heq
              exact .inl List.mem_cons_self
            · exact .inr (.inl hlt)
          · exact .inr (.inr (by simpa using hlt))
      | malformed => cases h
      | reference reference =>
          have hmore : '<' ∈ done ∨ .plain '<' ∈ ps ∨ .malformed ∈ ps := by simpa using hlt
          cases reference with
          | char c =>
              rw [readValue?] at h
              split at h
              · exact ih h (hmore.imp_left (List.mem_cons_of_mem c))
              · split at h
                · cases h
                · exact ih h (hmore.imp_left (mem_pushValueChar · c _))
          | entity name =>
              simp only [readValue?, Option.bind_eq_bind, Option.bind_eq_some_iff] at h
              obtain ⟨value, -, count, -, ⟨inside, _⟩, hinside, h⟩ := h
              exact ih h (hmore.imp_left (henter _ _ _ _ hinside))

theorem mem_of_valueWithin? (h : valueWithin? entities budget ps done references = some out)
    (hlt : '<' ∈ done ∨ .plain '<' ∈ ps ∨ .malformed ∈ ps) : '<' ∈ out.1 := by
  induction budget generalizing ps done references out with
  | zero => exact mem_of_readValue? (by rintro _ _ _ _ ⟨⟩) h hlt
  | succ budget ih => exact mem_of_readValue? (fun _ _ _ _ h hlt => ih h (.inl hlt)) h hlt

theorem alike_pushValueChar (h : Alike done done') (c : Char) (next : Option Char) :
    Alike (pushValueChar c next done) (pushValueChar c next done') :=
  h.imp (congrArg _) fun h => ⟨mem_pushValueChar h.1 c next, mem_pushValueChar h.2 c next⟩

theorem rel_lookup {α β : Type} [BEq α] {R : β → β → Prop} {t t' : List (α × β)}
    (h : List.Forall₂ (fun p p' => p.1 = p'.1 ∧ R p.2 p'.2) t t') (name : α) :
    Option.Rel R (t.lookup name) (t'.lookup name) := by
  induction h with
  | nil => exact .none
  | @cons p p' t t' hp _ ih =>
      obtain ⟨key, value⟩ := p
      obtain ⟨key', value'⟩ := p'
      obtain ⟨heq, hvalue⟩ := hp
      obtain rfl : key = key' := heq
      rw [List.lookup_cons, List.lookup_cons]
      split
      · exact .some hvalue
      · exact ih

theorem alike_readValue? (hentities : AlikeEntities entities entities')
    (henter : ∀ v v' done done' references references' out out', Alike v v' → Alike done done' →
      enter (pieces v) done references = some out → enter' (pieces v') done' references' = some out' →
        Alike out.1 out'.1)
    (hdone : Alike done done') (h : readValue? entities inEntity enter ps done references = some out)
    (h' : readValue? entities' inEntity enter' ps done' references' = some out') : Alike out.1 out'.1 := by
  induction ps generalizing done done' references references' with
  | nil =>
      cases h
      cases h'
      exact hdone
  | cons piece ps ih =>
      cases piece with
      | plain c => exact ih (alike_pushValueChar hdone c _) h h'
      | malformed => cases h
      | reference reference =>
          cases reference with
          | char c =>
              rw [readValue?] at h h'
              split at h
              · next hin =>
                rw [if_pos hin] at h'
                exact ih (hdone.imp (congrArg _) (.imp (List.mem_cons_of_mem c) (List.mem_cons_of_mem c))) h h'
              · next hin =>
                rw [if_neg hin] at h'
                rw [Option.ite_none_left_eq_some] at h h'
                exact ih (alike_pushValueChar hdone c _) h.2 h'.2
          | entity name =>
              simp only [readValue?, Option.bind_eq_bind, Option.bind_eq_some_iff] at h h'
              obtain ⟨value, hvalue, count, -, inside, hinside, h⟩ := h
              obtain ⟨value', hvalue', count', -, inside', hinside', h'⟩ := h'
              have halike : Alike value value' := by
                have hrel := rel_lookup hentities name
                rw [hvalue, hvalue'] at hrel
                cases hrel
                assumption
              exact ih (henter _ _ _ _ _ _ _ _ halike hdone hinside hinside') h h'

/-- Values that are alike are so after their entities have been read, as far as these are alike. -/
theorem alike_valueWithin? (hentities : AlikeEntities entities entities') (hvalue : Alike v v')
    (hdone : Alike done done') (h : valueWithin? entities budget (pieces v) done references = some out)
    (h' : valueWithin? entities' budget (pieces v') done' references' = some out') : Alike out.1 out'.1 := by
  induction budget generalizing v v' done done' references references' out out' with
  | zero =>
      rcases hvalue with rfl | ⟨hv, hv'⟩
      · exact alike_readValue? hentities (by rintro _ _ _ _ _ _ _ _ _ _ ⟨⟩) hdone h h'
      · exact .inr ⟨mem_of_valueWithin? h (.inr (mem_takePieces hv)), mem_of_valueWithin? h' (.inr (mem_takePieces hv'))⟩
  | succ budget ih =>
      rcases hvalue with rfl | ⟨hv, hv'⟩
      · exact alike_readValue? hentities (fun _ _ _ _ _ _ _ _ hv hd h h' => ih hv hd h h') hdone h h'
      · exact .inr ⟨mem_of_valueWithin? h (.inr (mem_takePieces hv)), mem_of_valueWithin? h' (.inr (mem_takePieces hv'))⟩

end

def AlikeSpaces (space space' : String) : Prop := Alike space.toList space'.toList

theorem AlikeSpaces.eq_iff {space space' fixed : String} (h : AlikeSpaces space space')
    (hfixed : '<' ∉ fixed.toList) : space = fixed ↔ space' = fixed := by
  rcases h with h | ⟨h, h'⟩
  · rw [String.toList_inj.1 h]
  · refine iff_of_false ?_ ?_
    · rintro rfl
      exact hfixed h
    · rintro rfl
      exact hfixed h'

def AlikeScopes (scope scope' : List (List Char × String)) : Prop :=
  List.Forall₂ (fun p p' => p.1 = p'.1 ∧ AlikeSpaces p.2 p'.2) scope scope'

inductive Declared.Alike : Declared → Declared → Prop
  | binding (mark : List Char) {space space' : String} (h : AlikeSpaces space space') :
      Alike (.binding mark space) (.binding mark space')
  | nothing : Alike .nothing .nothing
  | plain : Alike .plain .plain

theorem alike_declared? {bound bound' : List (List Char × String)} {name : QName} {value value' : String}
    {declared declared' : Declared} (hvalue : AlikeSpaces value value')
    (h : declared? bound name value = some declared) (h' : declared? bound' name value' = some declared') :
    declared.Alike declared' := by
  have hxml : value = xmlSpace ↔ value' = xmlSpace := hvalue.eq_iff (by decide)
  unfold declared? at h h'
  dsimp only at h h'
  split at h
  · next hmark =>
    rw [if_pos hmark] at h'
    simp only [Option.ite_none_left_eq_some] at h h'
    obtain ⟨-, -, -, h⟩ := h
    obtain ⟨-, -, -, h'⟩ := h'
    split at h
    · next heq =>
      rw [if_pos (hxml.1 heq)] at h'
      cases h
      cases h'
      exact .nothing
    · next hne =>
      rw [if_neg (mt hxml.2 hne)] at h'
      cases h
      cases h'
      exact .binding name.part hvalue
  · next hmark =>
    rw [if_neg hmark] at h'
    split at h
    · next hpart =>
      rw [if_pos hpart] at h'
      rw [Option.ite_none_left_eq_some] at h h'
      obtain ⟨-, h⟩ := h
      obtain ⟨-, h'⟩ := h'
      cases h
      cases h'
      exact .binding [] hvalue
    · next hpart =>
      rw [if_neg hpart] at h'
      cases h
      cases h'
      exact .plain

theorem rel_of_foldlM {α β : Type} {R : β → β → Prop} {S : α → α → Prop} {f f' : β → α → Option β} {l l' : List α}
    {b b' c c' : β} (hl : List.Forall₂ S l l') (h : l.foldlM f b = some c) (h' : l'.foldlM f' b' = some c')
    (hb : R b b') (hstep : ∀ a a' b b' c c', S a a' → R b b' → f b a = some c → f' b' a' = some c' → R c c') :
    R c c' := by
  induction hl generalizing b b' with
  | nil =>
      cases h
      cases h'
      exact hb
  | @cons a a' _ _ ha _ ih =>
      rw [List.foldlM_cons] at h h'
      obtain ⟨d, hd, h⟩ := Option.bind_eq_some_iff.1 h
      obtain ⟨d', hd', h'⟩ := Option.bind_eq_some_iff.1 h'
      exact ih h h' (hstep a a' b b' d d' ha hb hd hd')

structure Attributes.Alike (attributes attributes' : Attributes) : Prop where
  bound : AlikeScopes attributes.bound attributes'.bound
  others : List.Forall₂ (fun a a' => a.1 = a'.1) attributes.others attributes'.others

theorem alike_readAttribute? {budget : Nat} {acc acc' next next' : Attributes × Nat} {raw : RawAttribute}
    (hentities : AlikeEntities entities entities') (hacc : acc.1.Alike acc'.1)
    (h : readAttribute? entities budget acc raw = some next)
    (h' : readAttribute? entities' budget acc' raw = some next') : next.1.Alike next'.1 := by
  simp only [readAttribute?, Option.bind_eq_bind, Option.bind_eq_some_iff] at h h'
  obtain ⟨out, hout, declared, hdeclared, h⟩ := h
  obtain ⟨out', hout', declared', hdeclared', h'⟩ := h'
  have hvalue : AlikeSpaces (.ofList out.1.reverse) (.ofList out'.1.reverse) := by
    have halike := alike_valueWithin? hentities (.inl rfl) (.inl rfl) hout hout'
    rw [AlikeSpaces, String.toList_ofList, String.toList_ofList]
    simpa only [Alike, List.reverse_inj, List.mem_reverse] using halike
  cases alike_declared? hvalue hdeclared hdeclared' with
  | binding mark hspace =>
      cases h
      cases h'
      exact ⟨List.rel_append hacc.bound (.cons ⟨rfl, hspace⟩ .nil), hacc.others⟩
  | nothing =>
      cases h
      cases h'
      exact hacc
  | plain =>
      cases h
      cases h'
      exact ⟨hacc.bound, List.rel_append hacc.others (.cons rfl .nil)⟩

structure Attribute.Alike (a a' : Attribute) : Prop where
  name : a.name = a'.name
  space : Option.Rel AlikeSpaces a.space a'.space

theorem alike_resolve? {scope scope' : List (List Char × String)} {space space' : Option String}
    (hscope : AlikeScopes scope scope') (h : resolve? scope mark = some space)
    (h' : resolve? scope' mark = some space') : Option.Rel AlikeSpaces space space' := by
  have hlookup := rel_lookup hscope mark
  unfold resolve? at h h'
  generalize scope.lookup mark = found at h hlookup
  generalize scope'.lookup mark = found' at h' hlookup
  cases hlookup with
  | some hspace =>
      cases h
      cases h'
      exact .some hspace
  | none =>
      dsimp only at h h'
      rw [Option.ite_none_right_eq_some] at h h'
      cases h.2
      cases h'.2
      exact .none

theorem alike_attributeSpace? {scope scope' : List (List Char × String)} {name : QName} {space space' : Option String}
    (hscope : AlikeScopes scope scope') (h : attributeSpace? scope name = some space)
    (h' : attributeSpace? scope' name = some space') : Option.Rel AlikeSpaces space space' := by
  unfold attributeSpace? at h h'
  split at h
  · next hxml =>
    rw [if_pos hxml] at h'
    cases h
    cases h'
    exact .some (.inl rfl)
  · next hxml =>
    rw [if_neg hxml] at h'
    split at h
    · next hempty =>
      rw [if_pos hempty] at h'
      cases h
      cases h'
      exact .none
    · next hempty =>
      rw [if_neg hempty] at h'
      exact alike_resolve? hscope h h'

theorem alike_resolveAttribute? {scope scope' : List (List Char × String)} {attr attr' : QName × String}
    {found found' next next' : List Attribute} (hscope : AlikeScopes scope scope') (hattr : attr.1 = attr'.1)
    (hfound : List.Forall₂ Attribute.Alike found found') (h : resolveAttribute? scope found attr = some next)
    (h' : resolveAttribute? scope' found' attr' = some next') : List.Forall₂ Attribute.Alike next next' := by
  rw [resolveAttribute?_eq] at h h'
  obtain ⟨space, hspace, h⟩ := Option.bind_eq_some_iff.1 h
  obtain ⟨space', hspace', h'⟩ := Option.bind_eq_some_iff.1 h'
  rw [addAttribute?, Option.ite_none_left_eq_some] at h h'
  cases h.2
  cases h'.2
  rw [← hattr] at hspace' ⊢
  exact List.rel_append hfound (.cons ⟨rfl, alike_attributeSpace? hscope hspace hspace'⟩ .nil)

section Roots

variable {text after : List Char} {name : QName} {raw : List RawAttribute} {empty : Bool} {root : Element} {t : String}

/-- The attributes of the root are those of its tag, each read and resolved after the ones before it. -/
theorem exists_attributes_of_parse (hstart : takeStart? t = some (entities, text))
    (hopen : takeOpening? (text.length + 1) text = some (.opening name raw empty, after)) (h : parse t = .ok root) :
    ∃ acc, raw.foldlM (readAttribute? entities maxDepth) ({}, 0) = some acc ∧
      acc.1.others.foldlM (resolveAttribute? acc.1.bound) [] = some root.attributes := by
  rw [parse_of_opening hstart hopen] at h
  obtain ⟨b, hb, h⟩ := exists_of_bind_eq_ok h
  have hb := eq_some_of_orMalformed hb
  rw [attributes_of_finish (Build.isBegun_of_openTag? hb) h]
  rw [Build.openTag?_eq, Option.ite_none_left_eq_some] at hb
  obtain ⟨d, hd, hb⟩ := Option.bind_eq_some_iff.1 hb.2
  obtain ⟨p, hp, hb⟩ := Option.bind_eq_some_iff.1 hb
  obtain ⟨space, -, rfl⟩ := Option.map_eq_some_iff.1 hb
  obtain ⟨acc, hacc, heq⟩ := Option.bind_eq_some_iff.1 hd
  cases heq
  rw [Build.resolvePending?_eq] at hp
  obtain ⟨attributes, hattributes, rfl⟩ := Option.map_eq_some_iff.1 hp
  refine ⟨acc, hacc, ?_⟩
  rw [Build.rootAttributes_enter rfl rfl]
  simpa [Build.scope] using hattributes

/-- A tag of the root in two documents whose entities are alike. -/
theorem alike_attributes_of_parse {t' : String} {text' after' : List Char} {empty' : Bool} {root' : Element}
    (hentities : AlikeEntities entities entities') (hstart : takeStart? t = some (entities, text))
    (hopen : takeOpening? (text.length + 1) text = some (.opening name raw empty, after)) (h : parse t = .ok root)
    (hstart' : takeStart? t' = some (entities', text'))
    (hopen' : takeOpening? (text'.length + 1) text' = some (.opening name raw empty', after'))
    (h' : parse t' = .ok root') : List.Forall₂ Attribute.Alike root.attributes root'.attributes := by
  obtain ⟨acc, hacc, hattributes⟩ := exists_attributes_of_parse hstart hopen h
  obtain ⟨acc', hacc', hattributes'⟩ := exists_attributes_of_parse hstart' hopen' h'
  have halike : acc.1.Alike acc'.1 := by
    refine rel_of_foldlM (R := fun acc acc' => acc.1.Alike acc'.1) (S := Eq) (List.forall₂_refl raw) hacc hacc'
      ⟨.nil, .nil⟩ ?_
    rintro a _ b b' c c' rfl hb hc hc'
    exact alike_readAttribute? hentities hb hc hc'
  exact rel_of_foldlM halike.others hattributes hattributes' .nil
    fun _ _ _ _ _ _ hattr hfound hnext hnext' => alike_resolveAttribute? halike.bound hattr hfound hnext hnext'

open Markup in
theorem Attribute.Alike.key_eq {a a' : Attribute} (h : a.Alike a') : attributeKey a = attributeKey a' := by
  have hspace (fixed : String) (hfixed : '<' ∉ fixed.toList) : a.space = some fixed ↔ a'.space = some fixed := by
    have hrel := h.space
    generalize a.space = space at hrel
    generalize a'.space = space' at hrel
    cases hrel with
    | none => rfl
    | some hspace => rw [Option.some_inj, Option.some_inj, hspace.eq_iff hfixed]
  simp only [attributeKey, h.name, hspace xlinkSpace (by decide), hspace xmlSpace (by decide)]

end Roots

end DesignCompiler.Xml

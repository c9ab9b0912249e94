import DesignCompiler.Proofs.Names

namespace DesignCompiler.Xml

def Element.mapAttributes (g : List Attribute → List Attribute) (e : Element) : Element :=
  { e with attributes := g e.attributes }

def Frame.mapAttributes (g : List Attribute → List Attribute) (f : Frame) : Frame :=
  { f with attributes := g f.attributes }

/-- The root is the outermost of the open elements, which comes last. -/
def mapOutermost (g : List Attribute → List Attribute) : List Frame → List Frame
  | [] => []
  | [f] => [f.mapAttributes g]
  | f :: f' :: fs => f :: mapOutermost g (f' :: fs)

namespace Build

variable (g : List Attribute → List Attribute)

def mapRoot (b : Build) : Build :=
  { b with
    root := b.root.map (Element.mapAttributes g)
    frames := match b.root with
      | some _ => b.frames
      | none => mapOutermost g b.frames }

def IsBegun (b : Build) : Prop := b.root.isSome ∨ b.frames ≠ []

def rootAttributes (b : Build) : List Attribute :=
  match b.root with
  | some e => e.attributes
  | none => (b.frames.getLast?.map Frame.attributes).getD []

variable {g} {b : Build}

theorem scope_mapRoot : (b.mapRoot g).scope = b.scope := by
  obtain ⟨frames, root, _⟩ := b
  cases root with
  | some e => rfl
  | none => rcases frames with _ | ⟨f, _ | ⟨f', fs⟩⟩ <;> rfl

theorem resolvePending?_mapRoot : (b.mapRoot g).resolvePending? = b.resolvePending? := by
  rw [resolvePending?, scope_mapRoot]
  rfl

theorem mapOutermost_concat (fs : List Frame) (f : Frame) :
    mapOutermost g (fs ++ [f]) = fs ++ [f.mapAttributes g] := by
  induction fs with
  | nil => rfl
  | cons f' fs ih =>
      rw [List.cons_append, List.cons_append, ← ih]
      cases fs <;> rfl

theorem mapRoot_rootAttributes (h : b.IsBegun) : b.mapRoot (fun _ => b.rootAttributes) = b := by
  obtain ⟨frames, root, _⟩ := b
  cases root with
  | some e =>
      cases e
      rfl
  | none =>
      rcases List.eq_nil_or_concat frames with rfl | ⟨fs, f, rfl⟩
      · simp [IsBegun] at h
      · simp [mapRoot, rootAttributes, mapOutermost_concat, Frame.mapAttributes]

theorem IsBegun.addChild (h : b.IsBegun) (child : Content Element) : (b.addChild child).IsBegun := by
  obtain ⟨frames, root, _⟩ := b
  cases frames with
  | nil => cases child <;> simp_all [IsBegun, Build.addChild]
  | cons f fs => simp [IsBegun, Build.addChild]

theorem addChild_mapRoot (h : b.IsBegun) (child : Content Element) :
    (b.mapRoot g).addChild child = (b.addChild child).mapRoot g := by
  -- the root is closed, or it is itself the innermost element, or an element in it is
  obtain ⟨frames, root, _⟩ := b
  cases root with
  | some e =>
      cases frames with
      | nil => cases child <;> rfl
      | cons f fs => rfl
  | none =>
      rcases frames with _ | ⟨f, _ | ⟨f', fs⟩⟩
      · simp [IsBegun] at h
      · rfl
      · cases fs <;> rfl

theorem addText_cons {f : Frame} {fs : List Frame} (h : b.frames = f :: fs) (s : String) :
    b.addText s = { b with
      inText := true
      frames := { f with children :=
        match b.inText, f.children with
        | true, .text t :: children => .text (t ++ s) :: children
        | _, children => .text s :: children } :: fs } := by
  obtain ⟨frames, root, pending, inText, tagMet, references⟩ := b
  obtain rfl : frames = f :: fs := h
  cases inText with
  | false => rfl
  | true =>
      obtain ⟨name, scope, space, attributes, children⟩ := f
      rcases children with _ | ⟨_ | t | _, children⟩ <;> rfl

theorem IsBegun.addText (h : b.IsBegun) (s : String) : (b.addText s).IsBegun := by
  have hchild : { b.addChild (.text s) with inText := true }.IsBegun := h.addChild (.text s)
  unfold Build.addText
  split
  · split
    · exact .inr (List.cons_ne_nil _ _)
    · exact hchild
  · exact hchild

theorem addText_mapRoot (h : b.IsBegun) (s : String) : (b.mapRoot g).addText s = (b.addText s).mapRoot g := by
  obtain ⟨frames, root, pending, inText, tagMet, references⟩ := b
  cases root with
  | some e =>
      cases frames with
      | nil => cases inText <;> rfl
      | cons f fs =>
          rw [addText_cons rfl, addText_cons rfl]
          rfl
  | none =>
      rcases frames with _ | ⟨f, _ | ⟨f', fs⟩⟩
      · simp [IsBegun] at h
      · rw [addText_cons rfl, addText_cons rfl]
        rfl
      · rw [addText_cons rfl, addText_cons rfl]
        rfl

theorem IsBegun.flush (h : b.IsBegun) (done : List Char) : (b.flush done).IsBegun := by
  unfold Build.flush
  split
  · exact h
  · exact h.addText _

theorem flush_mapRoot (h : b.IsBegun) (done : List Char) : (b.mapRoot g).flush done = (b.flush done).mapRoot g := by
  unfold flush
  split
  · rfl
  · exact addText_mapRoot h _

theorem isBegun_addChild_element (b : Build) (e : Element) : (b.addChild (.element e)).IsBegun := by
  obtain ⟨frames, _⟩ := b
  cases frames <;> simp [IsBegun, Build.addChild]

def enter (b : Build) (f : Frame) (empty : Bool) : Build :=
  if empty then b.addChild (.element (Frame.close f)) else { b with frames := f :: b.frames }

theorem isBegun_enter (b : Build) (f : Frame) (empty : Bool) : (b.enter f empty).IsBegun := by
  cases empty with
  | true => exact isBegun_addChild_element b _
  | false => exact .inr (List.cons_ne_nil f b.frames)

theorem enter_mapRoot (h : b.IsBegun) (f : Frame) (empty : Bool) :
    (b.mapRoot g).enter f empty = (b.enter f empty).mapRoot g := by
  cases empty with
  | true => exact addChild_mapRoot h _
  | false =>
      obtain ⟨frames, root, _⟩ := b
      cases root with
      | some e => rfl
      | none =>
          cases frames with
          | nil => simp [IsBegun] at h
          | cons f' fs => rfl

section

variable {entities : Entities} {budget : Nat} {name : QName} {raw : List RawAttribute} {empty : Bool}

theorem openTag?_eq (b : Build) : b.openTag? entities budget name raw empty =
    if name.space = "xmlns".toList then none
    else (b.readAttributes? entities budget raw).bind fun d =>
      d.resolvePending?.bind fun p =>
        (resolve? p.1 name.space).map fun space =>
          enter { d with pending := {}, tagMet := true } ⟨name, p.1, space, p.2, []⟩ empty := by
  unfold openTag?
  by_cases hname : name.space = "xmlns".toList
  · rw [if_pos hname, if_pos hname]
    rfl
  · rw [if_neg hname, if_neg hname]
    refine Option.bind_congr fun d _ => Option.bind_congr fun p _ => ?_
    obtain ⟨scope, attributes⟩ := p
    dsimp only
    cases resolve? scope name.space with
    | none => rfl
    | some space => cases empty <;> rfl

end

def leave (b : Build) (name : QName) : Except Failure Build :=
  match b.frames with
  | f :: rest =>
    if f.name = name then
      .ok { Build.addChild { b with frames := rest, pending := {} } (.element (Frame.close f)) with inText := false }
    else .error .malformed
  | [] => .error .closedTwice

theorem closeTag_eq (b : Build) (name : QName) : b.closeTag name =
    if b.tagMet then orMalformed b.resolvePending? >>= fun _ => b.leave name else .error .malformed := by
  unfold closeTag leave
  cases b.tagMet with
  | false => rfl
  | true =>
      refine bind_congr fun _ => ?_
      cases b.frames with
      | nil => rfl
      | cons f fs => by_cases hname : f.name = name <;> simp [hname] <;> rfl

theorem leave_mapRoot (h : b.IsBegun) (name : QName) :
    (b.mapRoot g).leave name = (b.leave name).map (mapRoot g) := by
  obtain ⟨frames, root, pending, inText, tagMet, references⟩ := b
  rcases frames with _ | ⟨f, _ | ⟨f', fs⟩⟩
  · cases root with
    | some e => rfl
    | none => simp [IsBegun] at h
  · by_cases hname : f.name = name
    · subst hname
      cases root <;> simp [leave, mapRoot, mapOutermost, Frame.mapAttributes] <;> rfl
    · cases root <;> simp [leave, mapRoot, mapOutermost, Frame.mapAttributes, hname] <;> rfl
  · by_cases hname : f.name = name
    · subst hname
      cases root <;> cases fs <;> simp [leave, mapRoot, mapOutermost] <;> rfl
    · cases root <;> simp [leave, mapRoot, mapOutermost, hname] <;> rfl

theorem isBegun_of_leave {name : QName} {c : Build} (h : b.leave name = .ok c) : c.IsBegun := by
  unfold leave at h
  split at h
  · split at h
    · cases h
      exact isBegun_addChild_element _ _
    · cases h
  · cases h

section Readers

variable (g) in
def Agrees (result result' : Except Failure Build) : Prop :=
  result' = result.map (mapRoot g) ∧ ∀ c, result = .ok c → c.IsBegun

theorem Agrees.error (e : Failure) : Agrees g (.error e) (.error e) := ⟨rfl, nofun⟩

theorem Agrees.ok (h : b.IsBegun) : Agrees g (.ok b) (.ok (b.mapRoot g)) := by
  refine ⟨rfl, ?_⟩
  rintro _ ⟨⟩
  exact h

variable (g) in
/-- A reader of what follows the tag of the root, which goes on in the same way when the root has other attributes. -/
def Respects (read : Build → Except Failure Build) : Prop := ∀ b, b.IsBegun → Agrees g (read b) (read (b.mapRoot g))

variable {entities : Entities} {budget : Nat}

theorem readAttributes?_mapRoot (raw : List RawAttribute) :
    (b.mapRoot g).readAttributes? entities budget raw
      = (b.readAttributes? entities budget raw).map (mapRoot g) := by
  unfold readAttributes?
  change Option.bind (raw.foldlM (readAttribute? entities budget) (b.pending, b.references)) _ = _
  cases raw.foldlM (readAttribute? entities budget) (b.pending, b.references) <;> rfl

theorem IsBegun.readAttributes? (h : b.IsBegun) {raw : List RawAttribute} {c : Build}
    (hread : b.readAttributes? entities budget raw = some c) : c.IsBegun := by
  obtain ⟨_, -, heq⟩ := Option.bind_eq_some_iff.1 hread
  cases heq
  exact h

theorem openTag?_mapRoot (h : b.IsBegun) (name : QName) (raw : List RawAttribute) (empty : Bool) :
    (b.mapRoot g).openTag? entities budget name raw empty
      = (b.openTag? entities budget name raw empty).map (mapRoot g) := by
  rw [openTag?_eq, openTag?_eq, readAttributes?_mapRoot]
  split
  · rfl
  · cases hread : b.readAttributes? entities budget raw with
    | none => rfl
    | some d =>
        have hd : d.IsBegun := h.readAttributes? hread
        rw [Option.map_some, Option.bind_some, Option.bind_some, resolvePending?_mapRoot, Option.map_bind]
        refine Option.bind_congr fun p _ => ?_
        rw [Function.comp_apply, Option.map_map]
        exact Option.map_congr fun space _ =>
          enter_mapRoot (b := { d with pending := {}, tagMet := true }) hd _ empty

theorem isBegun_of_openTag? {name : QName} {raw : List RawAttribute} {empty : Bool} {c : Build}
    (h : b.openTag? entities budget name raw empty = some c) : c.IsBegun := by
  rw [openTag?_eq, Option.ite_none_left_eq_some] at h
  obtain ⟨d, -, h⟩ := Option.bind_eq_some_iff.1 h.2
  obtain ⟨p, -, h⟩ := Option.bind_eq_some_iff.1 h
  obtain ⟨space, -, rfl⟩ := Option.map_eq_some_iff.1 h
  exact isBegun_enter _ _ empty

theorem respects_closeTag (name : QName) : Respects g fun b => b.closeTag name := by
  intro b hb
  simp only [closeTag_eq, resolvePending?_mapRoot]
  change Agrees g _ (if b.tagMet then _ else _)
  split
  · cases b.resolvePending? with
    | none => exact .error _
    | some p => exact ⟨leave_mapRoot hb name, fun c => isBegun_of_leave⟩
  · exact .error _

end Readers

end Build

section Reading

variable {g : List Attribute → List Attribute} {entities : Entities}

open Build

namespace Build.Respects

theorem ok {f : Build → Build} (hf : ∀ b, b.IsBegun → f (b.mapRoot g) = (f b).mapRoot g ∧ (f b).IsBegun) :
    Respects g fun b => .ok (f b) := by
  intro b hb
  obtain ⟨hmap, hbegun⟩ := hf b hb
  dsimp only
  rw [hmap]
  exact .ok hbegun

theorem error (e : Failure) : Respects g fun _ => .error e := fun _ _ => .error e

theorem bind {read next : Build → Except Failure Build} (hread : Respects g read) (hnext : Respects g next) :
    Respects g fun b => read b >>= next := by
  intro b hb
  obtain ⟨hmap, hbegun⟩ := hread b hb
  dsimp only
  rw [hmap]
  cases hc : read b with
  | error e => exact .error e
  | ok c => exact hnext c (hbegun c hc)

end Build.Respects

theorem respects_readText {inEntity : Bool} {enter : Enter} (henter : ∀ tokens, Respects g (enter tokens))
    (pieces : List Piece) (done : List Char) (asIs : Bool) :
    Respects g (readText entities inEntity enter pieces done asIs) := by
  induction pieces generalizing done asIs with
  | nil => exact .ok fun b hb => ⟨flush_mapRoot hb done, hb.flush done⟩
  | cons piece rest ih =>
      cases piece with
      | plain d => exact ih _ _
      | malformed => exact .error _
      | reference reference =>
          cases reference with
          | char d =>
              intro b hb
              simp only [readText]
              split
              · exact ih _ _ b hb
              · exact ih _ _ b hb
          | entity name =>
              have hinside (tokens : List Token) (references : Nat) (tagMet : Bool) : Respects g fun b =>
                  enter tokens { b with references, tagMet := false } >>= fun after =>
                    readText entities inEntity enter rest [] false
                      { after with references := if inEntity then after.references else 0, tagMet } := by
                refine .bind (fun b hb => henter tokens { b with references, tagMet := false } hb) ?_
                exact fun b hb => ih [] false { b with references := _, tagMet } hb
              intro b hb
              have hflushed := hb.flush done
              rw [readText, readText, flush_mapRoot hb]
              generalize b.flush done = flushed at hflushed
              cases entities.lookup name with
              | none => exact .error _
              | some value =>
                  cases hcount : countReference? inEntity flushed.references with
                  | none =>
                      have hmapped : countReference? inEntity (flushed.mapRoot g).references = none := hcount
                      simp only [hcount, hmapped]
                      exact .error _
                  | some references =>
                      have hmapped : countReference? inEntity (flushed.mapRoot g).references = some references := hcount
                      simp only [hcount, hmapped]
                      exact hinside _ references flushed.tagMet flushed hflushed

theorem respects_readToken {budget : Nat} {enter : Enter} (henter : ∀ tokens, Respects g (enter tokens))
    (token : Token) : Respects g fun b => readToken entities budget enter b token := by
  cases token with
  | opening name raw empty =>
      intro b hb
      simp only [readToken, openTag?_mapRoot hb]
      cases hopen : b.openTag? entities budget name raw empty with
      | none => exact .error _
      | some c => exact .ok (isBegun_of_openTag? hopen)
  | unfinished name raw =>
      intro b hb
      simp only [readToken, readAttributes?_mapRoot]
      split
      · exact .error _
      · cases hread : b.readAttributes? entities budget raw with
        | none => exact .error _
        | some c => exact .ok (hb.readAttributes? hread)
  | closing name => exact respects_closeTag name
  | text raw => exact respects_readText henter _ _ _
  | characterData raw => exact .ok fun b hb => ⟨addText_mapRoot hb _, hb.addText _⟩
  | gap =>
      refine .ok fun b hb => ⟨?_, hb.addChild .gap⟩
      rw [addChild_mapRoot hb]
      rfl
  | malformed => exact .error _

theorem respects_foldlM_readToken {budget : Nat} {enter : Enter} (henter : ∀ tokens, Respects g (enter tokens))
    (tokens : List Token) : Respects g fun b => tokens.foldlM (readToken entities budget enter) b := by
  induction tokens with
  | nil => exact .ok fun b hb => ⟨rfl, hb⟩
  | cons token tokens ih =>
      simp only [List.foldlM_cons]
      exact (respects_readToken henter token).bind ih

theorem respects_readContent (budget : Nat) (tokens : List Token) :
    Respects g (readContent entities budget tokens) := by
  -- entities in entities are read with one level less
  induction budget generalizing tokens with
  | zero => exact respects_foldlM_readToken (fun _ => .error _) tokens
  | succ budget ih => exact respects_foldlM_readToken ih tokens

end Reading

section Front

/-- An element has no two attributes of which one shares its name with the other. -/
def Attribute.sharesName (a b : Attribute) : Bool := a.space = b.space && a.name = b.name

/-- An attribute without a mark, as it is written and as it is in the tree, where its value is the same. -/
structure RawAttribute.IsPlain (raw : RawAttribute) (a : Attribute) : Prop where
  space : a.space = none
  name : raw.name = ⟨[], a.name.toList⟩
  read (entities : Entities) (budget references : Nat) :
    valueWithin? entities budget (pieces raw.value) [] references = some (a.value.toList.reverse, references)
  unbound : a.name ≠ "xmlns"

def Attributes.cons (first : QName × String) (attrs : Attributes) : Attributes :=
  { attrs with others := first :: attrs.others }

variable {entities : Entities} {budget : Nat} {raw₀ : RawAttribute} {a : Attribute}

theorem RawAttribute.IsPlain.readAttribute? (h : raw₀.IsPlain a) (acc : Attributes × Nat) :
    readAttribute? entities budget acc raw₀
      = some ({ acc.1 with others := acc.1.others ++ [(raw₀.name, a.value)] }, acc.2) := by
  have hname : a.name.toList ≠ "xmlns".toList := fun heq => h.unbound (String.toList_inj.1 heq)
  have hdeclared : declared? acc.1.bound raw₀.name a.value = some .plain := by
    simp only [declared?, h.name]
    rw [if_neg (by simp), if_neg hname]
  unfold Xml.readAttribute?
  simp [h.read, hdeclared]

/-- What is read after an attribute does not depend on it, unless it declares a namespace. -/
theorem readAttribute?_cons (first : QName × String) (acc : Attributes × Nat) (raw : RawAttribute) :
    readAttribute? entities budget (acc.1.cons first, acc.2) raw
      = (readAttribute? entities budget acc raw).map (Prod.map (Attributes.cons first) id) := by
  unfold readAttribute?
  simp only [Option.bind_eq_bind, Option.map_bind]
  refine Option.bind_congr fun p _ => ?_
  rw [Function.comp_apply, Option.map_bind]
  refine Option.bind_congr fun declared _ => ?_
  cases declared <;> rfl

theorem foldlM_readAttribute?_cons (first : QName × String) (raw : List RawAttribute) (acc : Attributes × Nat) :
    raw.foldlM (readAttribute? entities budget) (acc.1.cons first, acc.2)
      = (raw.foldlM (readAttribute? entities budget) acc).map (Prod.map (Attributes.cons first) id) := by
  induction raw generalizing acc with
  | nil => rfl
  | cons raw rest ih =>
      rw [List.foldlM_cons, List.foldlM_cons, readAttribute?_cons]
      cases readAttribute? entities budget acc raw with
      | none => rfl
      | some next => exact ih next

variable {scope : List (List Char × String)} {done : List Attribute}

def attributeSpace? (scope : List (List Char × String)) (name : QName) : Option (Option String) :=
  if name.space = "xml".toList then some (some xmlSpace)
  else if name.space.isEmpty then some none
  else resolve? scope name.space

def addAttribute? (done : List Attribute) (a : Attribute) : Option (List Attribute) :=
  if done.any (·.sharesName a) then none else some (done ++ [a])

theorem resolveAttribute?_eq (attr : QName × String) : resolveAttribute? scope done attr =
    (attributeSpace? scope attr.1).bind fun space => addAttribute? done ⟨space, .ofList attr.1.part, attr.2⟩ := by
  obtain ⟨name, value⟩ := attr
  unfold resolveAttribute? attributeSpace?
  dsimp only
  split
  · rfl
  · split <;> rfl

theorem addAttribute?_cons (h : done.any a.sharesName = false) (b : Attribute) : addAttribute? (a :: done) b =
    (addAttribute? done b).bind fun done => if done.any a.sharesName then none else some (a :: done) := by
  unfold addAttribute?
  rw [List.any_cons]
  cases done.any (·.sharesName b) with
  | true => simp
  | false =>
      have hany : (done ++ [b]).any a.sharesName = a.sharesName b := by
        rw [List.any_append, h, Bool.false_or, List.any_cons, List.any_nil, Bool.or_false]
      rw [Bool.or_false, if_neg Bool.false_ne_true, Option.bind_some, hany]
      rfl

theorem isPrefix_of_foldlM_resolveAttribute? {others : List (QName × String)} {done' : List Attribute}
    (h : others.foldlM (resolveAttribute? scope) done = some done') : done <+: done' := by
  apply of_foldlM_eq_some (P := fun l => done <+: l) h (List.prefix_refl done)
  intro attr _ l l' hl hstep
  obtain ⟨space, rfl⟩ := exists_of_resolveAttribute? hstep
  exact hl.trans (List.prefix_append l _)

theorem foldlM_resolveAttribute?_cons (h : done.any a.sharesName = false) (others : List (QName × String)) :
    others.foldlM (resolveAttribute? scope) (a :: done)
      = (others.foldlM (resolveAttribute? scope) done).bind fun done =>
          if done.any a.sharesName then none else some (a :: done) := by
  induction others generalizing done with
  | nil =>
      simp only [List.foldlM_nil, Option.pure_def, Option.bind_some, h]
      rfl
  | cons attr others ih =>
      have hstep : resolveAttribute? scope (a :: done) attr = (resolveAttribute? scope done attr).bind fun done =>
          if done.any a.sharesName then none else some (a :: done) := by
        rw [resolveAttribute?_eq, resolveAttribute?_eq, Option.bind_assoc]
        exact Option.bind_congr fun space _ => addAttribute?_cons h _
      rw [List.foldlM_cons, List.foldlM_cons, hstep]
      cases resolveAttribute? scope done attr with
      | none => rfl
      | some next =>
          cases hnext : next.any a.sharesName with
          | false =>
              simp only [Option.bind_eq_bind, Option.bind_some, hnext]
              exact ih hnext
          | true =>
              -- the name stays taken
              have hrest : (others.foldlM (resolveAttribute? scope) next).bind (fun done =>
                  if done.any a.sharesName then none else some (a :: done)) = none := by
                refine Option.bind_eq_none_iff.2 fun last hlast => if_pos ?_
                obtain ⟨b, hb, hshares⟩ := List.any_eq_true.1 hnext
                exact List.any_eq_true.2 ⟨b, (isPrefix_of_foldlM_resolveAttribute? hlast).mem hb, hshares⟩
              simp only [Option.bind_eq_bind, Option.bind_some, hnext, if_true, Option.bind_none]
              exact hrest.symm

namespace Build

variable {b : Build}

theorem readAttributes?_front (h : raw₀.IsPlain a) (raw : List RawAttribute) :
    ({} : Build).readAttributes? entities budget (raw₀ :: raw)
      = (({} : Build).readAttributes? entities budget raw).map fun d =>
          { d with pending := d.pending.cons (raw₀.name, a.value) } := by
  unfold readAttributes?
  rw [List.foldlM_cons, h.readAttribute?]
  change Option.bind (raw.foldlM (readAttribute? entities budget) (Attributes.cons _ {}, 0)) _ = _
  rw [foldlM_readAttribute?_cons (raw₀.name, a.value) raw ({}, 0)]
  cases raw.foldlM (readAttribute? entities budget) ({}, 0) <;> rfl

theorem resolvePending?_eq (b : Build) : b.resolvePending? =
    (b.pending.others.foldlM (resolveAttribute? (b.pending.bound ++ b.scope)) []).map
      (Prod.mk (b.pending.bound ++ b.scope)) := by
  unfold resolvePending?
  dsimp only
  cases b.pending.others.foldlM (resolveAttribute? (b.pending.bound ++ b.scope)) [] <;> rfl

theorem resolvePending?_front (h : raw₀.IsPlain a) :
    Build.resolvePending? { b with pending := b.pending.cons (raw₀.name, a.value) }
      = b.resolvePending?.bind fun p => if p.2.any a.sharesName then none else some (p.1, a :: p.2) := by
  let scope := b.pending.bound ++ b.scope
  have hfirst : resolveAttribute? scope [] (raw₀.name, a.value) = some [a] := by
    obtain ⟨space, name, value⟩ := a
    obtain rfl : space = none := h.space
    rw [resolveAttribute?_eq, h.name]
    simp [attributeSpace?, addAttribute?]
  have hall : ((raw₀.name, a.value) :: b.pending.others).foldlM (resolveAttribute? scope) []
      = b.pending.others.foldlM (resolveAttribute? scope) [a] := by
    rw [List.foldlM_cons, hfirst]
    rfl
  rw [resolvePending?_eq, resolvePending?_eq, Option.bind_map]
  change (((raw₀.name, a.value) :: b.pending.others).foldlM (resolveAttribute? scope) []).map (Prod.mk scope) = _
  rw [hall, foldlM_resolveAttribute?_cons (by rfl), Option.map_bind]
  refine Option.bind_congr fun attributes _ => ?_
  change Option.map _ (if attributes.any a.sharesName then _ else _) = if attributes.any a.sharesName then _ else _
  split <;> rfl

theorem rootAttributes_enter (hframes : b.frames = []) (hroot : b.root = none) (f : Frame) (empty : Bool) :
    (b.enter f empty).rootAttributes = f.attributes := by
  obtain ⟨frames, root, _⟩ := b
  obtain rfl : frames = [] := hframes
  obtain rfl : root = none := hroot
  cases empty <;> rfl

theorem mapRoot_enter (hframes : b.frames = []) (hroot : b.root = none) (g : List Attribute → List Attribute)
    (f : Frame) (empty : Bool) : (b.enter f empty).mapRoot g = b.enter (f.mapAttributes g) empty := by
  obtain ⟨frames, root, _⟩ := b
  obtain rfl : frames = [] := hframes
  obtain rfl : root = none := hroot
  cases empty <;> rfl

theorem openTag?_front (h : raw₀.IsPlain a) (name : QName) (raw : List RawAttribute) (empty : Bool) :
    ({} : Build).openTag? entities budget name (raw₀ :: raw) empty
      = (({} : Build).openTag? entities budget name raw empty).bind fun b =>
          if b.rootAttributes.any a.sharesName then none else some (b.mapRoot (a :: ·)) := by
  rw [openTag?_eq, openTag?_eq, readAttributes?_front h]
  split
  · rfl
  · cases hread : ({} : Build).readAttributes? entities budget raw with
    | none => rfl
    | some d =>
        obtain ⟨_, -, heq⟩ := Option.bind_eq_some_iff.1 hread
        have hframes : d.frames = [] := by cases heq; rfl
        have hroot : d.root = none := by cases heq; rfl
        rw [Option.map_some, Option.bind_some, Option.bind_some, resolvePending?_front h, Option.bind_assoc,
          Option.bind_assoc]
        refine Option.bind_congr fun p _ => ?_
        cases hspace : resolve? p.1 name.space with
        | none =>
            -- the mark of the tag itself is not bound
            rw [Option.map_none, Option.bind_none, Option.bind_eq_none_iff]
            intro q hq
            obtain rfl : q = (p.1, a :: p.2) := by
              split at hq <;> cases hq
              rfl
            rw [hspace, Option.map_none]
        | some space =>
            rw [Option.map_some, Option.bind_some,
              rootAttributes_enter (b := { d with pending := {}, tagMet := true }) hframes hroot,
              mapRoot_enter (b := { d with pending := {}, tagMet := true }) hframes hroot]
            split
            · rfl
            · rw [Option.bind_some, hspace]
              rfl

end Build

end Front

section Documents

open Build

variable {entities : Entities} {b : Build} {empty : Bool} {rest : List Char} {e : Element}

def finish (entities : Entities) (empty : Bool) (rest : List Char) (b : Build) : Except Failure Element := do
  let (tokens, rest) := takeContent (rest.length + 1) (if empty then 0 else 1) rest
  let built ← readContent entities maxDepth (tokens ++ if isMisc rest then [] else [.malformed]) b
  if built.frames.isEmpty then orMalformed built.root else .error .malformed

theorem readContent_cons (token : Token) (tokens : List Token) :
    readContent entities maxDepth (token :: tokens) b
      = readToken entities maxDepth (readContent entities (maxDepth - 1)) b token
          >>= readContent entities maxDepth tokens := rfl

theorem parse_of_opening {s : String} {text : List Char} {name : QName} {raw : List RawAttribute}
    (hstart : takeStart? s = some (entities, text))
    (hopen : takeOpening? (text.length + 1) text = some (.opening name raw empty, rest)) :
    parse s = orMalformed (({} : Build).openTag? entities maxDepth name raw empty) >>= finish entities empty rest := by
  rw [parse, hstart]
  change (orMalformed (takeOpening? (text.length + 1) text) >>= _) = _
  rw [hopen]
  change (readContent entities maxDepth (Token.opening name raw empty :: _) {} >>= _) = _
  rw [readContent_cons, bind_assoc]
  refine bind_congr fun b => ?_
  cases empty <;> rfl

theorem finish_mapRoot (h : b.IsBegun) (g : List Attribute → List Attribute) :
    finish entities empty rest (b.mapRoot g) = (finish entities empty rest b).map (Element.mapAttributes g) := by
  unfold finish
  generalize takeContent (rest.length + 1) (if empty then 0 else 1) rest = content
  obtain ⟨tokens, rest⟩ := content
  dsimp only
  rw [(respects_readContent maxDepth _ b h).1]
  cases readContent entities maxDepth (tokens ++ if isMisc rest then [] else [.malformed]) b with
  | error e => rfl
  | ok built =>
      obtain ⟨frames, root, _⟩ := built
      cases root with
      | some e => cases frames <;> rfl
      | none => rcases frames with _ | ⟨f, _ | ⟨f', fs⟩⟩ <;> rfl

/-- The root keeps the attributes of its tag. -/
theorem attributes_of_finish (h : b.IsBegun) (hfinish : finish entities empty rest b = .ok e) :
    e.attributes = b.rootAttributes := by
  have hset : finish entities empty rest (b.mapRoot fun _ => b.rootAttributes) = _ := finish_mapRoot h _
  rw [mapRoot_rootAttributes h, hfinish] at hset
  exact congrArg Element.attributes (Except.ok.inj hset)

theorem parse_of_unfinished {s : String} {text : List Char} {name : QName} {raw : List RawAttribute}
    (hstart : takeStart? s = some (entities, text))
    (hopen : takeOpening? (text.length + 1) text = some (.unfinished name raw, rest)) : parse s ≠ .ok e := by
  rw [parse, hstart]
  change (orMalformed (takeOpening? (text.length + 1) text) >>= _) ≠ _
  rw [hopen]
  change (readContent entities maxDepth (Token.unfinished name raw :: _) {} >>= _) ≠ _
  rw [readContent_cons, bind_assoc]
  intro h
  obtain ⟨b, hb, h⟩ := exists_of_bind_eq_ok h
  obtain ⟨built, hbuilt, h⟩ := exists_of_bind_eq_ok h
  have hunread : b.frames = [] ∧ b.root = none := by
    rw [readToken] at hb
    split at hb
    · cases hb
    · obtain ⟨_, -, heq⟩ := Option.bind_eq_some_iff.1 (eq_some_of_orMalformed hb)
      cases heq
      exact ⟨rfl, rfl⟩
  split at hbuilt
  · cases hbuilt
    rw [hunread.1, hunread.2] at h
    cases h
  · cases hbuilt

/-- A document that has a tree begins with the tag of an element. -/
theorem exists_opening_of_parse {s : String} {text : List Char} (h : parse s = .ok e)
    (hstart : takeStart? s = some (entities, text)) :
    ∃ name attributes empty after,
      takeOpening? (text.length + 1) text = some (.opening name attributes empty, after) := by
  have hparse := h
  rw [parse, hstart] at hparse
  obtain ⟨⟨token, after⟩, htoken, -⟩ := exists_of_bind_eq_ok (x := orMalformed (takeOpening? _ text)) hparse
  have htoken := eq_some_of_orMalformed htoken
  have htag : (∃ name attributes empty, token = .opening name attributes empty) ∨
      ∃ name attributes, token = .unfinished name attributes := by
    simp only [takeOpening?, Option.bind_eq_bind, Option.bind_eq_some_iff] at htoken
    obtain ⟨⟨name, _⟩, -, ⟨attributes, close, _⟩, -, htoken⟩ := htoken
    cases close <;> cases htoken
    · exact .inl ⟨name, attributes, false, rfl⟩
    · exact .inl ⟨name, attributes, true, rfl⟩
    · exact .inr ⟨name, attributes, rfl⟩
  rcases htag with ⟨name, attributes, empty, rfl⟩ | ⟨name, attributes, rfl⟩
  · exact ⟨name, attributes, empty, after, htoken⟩
  · exact (parse_of_unfinished hstart htoken h).elim

variable {raw₀ : RawAttribute} {a : Attribute}

/-- One attribute more in front of the root's, and all else as it is. -/
theorem parse_front {s s' : String} {text text' : List Char} {name : QName} {raw : List RawAttribute}
    (hplain : raw₀.IsPlain a)
    (hstart : takeStart? s = some (entities, text))
    (hopen : takeOpening? (text.length + 1) text = some (.opening name raw empty, rest))
    (hstart' : takeStart? s' = some (entities, text'))
    (hopen' : takeOpening? (text'.length + 1) text' = some (.opening name (raw₀ :: raw) empty, rest))
    (h : parse s = .ok e) :
    parse s' = if e.attributes.any a.sharesName then .error .malformed else .ok (e.mapAttributes (a :: ·)) := by
  rw [parse_of_opening hstart hopen] at h
  rw [parse_of_opening hstart' hopen', openTag?_front hplain]
  obtain ⟨b, hb, h⟩ := exists_of_bind_eq_ok h
  have hb := eq_some_of_orMalformed hb
  have hbegun := isBegun_of_openTag? hb
  rw [hb, Option.bind_some, ← attributes_of_finish hbegun h]
  split
  · rfl
  · change finish entities empty rest (b.mapRoot (a :: ·)) = _
    rw [finish_mapRoot hbegun, h]
    rfl

end Documents

end DesignCompiler.Xml

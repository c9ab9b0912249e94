import Mathlib.Data.List.TakeWhile
import Mathlib.Tactic.SplitIfs
import DesignCompiler.Xml.Document

namespace DesignCompiler.Xml

def IsWritten (name : List Char) : Prop := name ≠ [] ∧ ∀ c ∈ name, isNameChar c

theorem IsWritten.append_left {s t : List Char} (h : IsWritten t) (hs : s.all isNameChar) : IsWritten (s ++ t) :=
  ⟨by simp [h.1], List.forall_mem_append.2 ⟨List.all_eq_true.1 hs, h.2⟩⟩

inductive Element.IsNamed : Element → Prop
  | intro {space : Option String} {name : String} {attributes : List Attribute} {children : List (Content Element)}
      (hname : IsWritten name.toList) (hattributes : ∀ a ∈ attributes, IsWritten a.name.toList)
      (hchildren : ∀ e, .element e ∈ children → IsNamed e) : IsNamed ⟨space, name, attributes, children⟩

def RawAttribute.IsNamed (raw : RawAttribute) : Prop := IsWritten raw.name.part

def Token.IsNamed : Token → Prop
  | opening name raw _ | unfinished name raw => IsWritten name.part ∧ ∀ a ∈ raw, a.IsNamed
  | _ => True

section Tokens

variable {s rest : List Char}

theorem isWritten_takeWhile {p : Char → Bool} (hp : ∀ c, p c → isNameChar c) (h : isPart (s.takeWhile p)) :
    IsWritten (s.takeWhile p) := by
  refine ⟨?_, fun c hc => hp c (List.mem_takeWhile_imp hc)⟩
  intro hnil
  rw [hnil] at h
  cases h

theorem isWritten_of_takeQName? {name : QName} (h : takeQName? s = some (name, rest)) : IsWritten name.part := by
  have hpart : ∀ c : Char, (c != ':' && isNameChar c) → isNameChar c := fun c hc => (Bool.and_eq_true_iff.1 hc).2
  rw [takeQName?] at h
  split at h
  · dsimp only at h
    split_ifs at h with hrefused
    cases h
    rw [Bool.or_eq_true, not_or] at hrefused
    exact isWritten_takeWhile hpart (by simpa using hrefused.2)
  · split_ifs at h with hfirst
    cases h
    exact isWritten_takeWhile hpart hfirst

theorem isNamed_of_takeAttribute? {raw : RawAttribute} (h : takeAttribute? s = some (raw, rest)) : raw.IsNamed := by
  simp only [takeAttribute?, Option.bind_eq_bind, Option.bind_eq_some_iff] at h
  obtain ⟨⟨name, s⟩, hname, s', -, ⟨quote, t⟩, -, ⟨value, t'⟩, -, h⟩ := h
  split_ifs at h
  cases h
  exact isWritten_of_takeQName? hname

theorem isNamed_of_takeAttributes? {fuel : Nat} {raw : List RawAttribute} {close : TagEnd}
    (h : takeAttributes? fuel s = some (raw, close, rest)) : ∀ a ∈ raw, a.IsNamed := by
  induction fuel generalizing s raw close rest with
  | zero => cases h
  | succ fuel ih =>
      cases s with
      | nil =>
          cases h
          simp
      | cons c s =>
          rw [takeAttributes?] at h
          · split at h
            · cases h
            · obtain ⟨_, -, heq⟩ := Option.map_eq_some_iff.1 h
              cases heq
              simp
            · cases h
              simp
            · split_ifs at h
              simp only [Option.bind_eq_bind, Option.bind_eq_some_iff] at h
              obtain ⟨⟨first, s⟩, hfirst, ⟨more, close, t⟩, hmore, heq⟩ := h
              cases heq
              exact List.forall_mem_cons.2 ⟨isNamed_of_takeAttribute? hfirst, ih hmore⟩
          · simp

theorem isNamed_of_takeOpening? {fuel : Nat} {token : Token} (h : takeOpening? fuel s = some (token, rest)) :
    token.IsNamed := by
  simp only [takeOpening?, Option.bind_eq_bind, Option.bind_eq_some_iff] at h
  obtain ⟨⟨name, s⟩, hname, ⟨raw, close, t⟩, hraw, h⟩ := h
  cases close <;> cases h <;> exact ⟨isWritten_of_takeQName? hname, isNamed_of_takeAttributes? hraw⟩

theorem isNamed_of_takeToken? {fuel : Nat} {token : Token} (h : takeToken? fuel s = some (token, rest)) :
    token.IsNamed := by
  rw [takeToken?.eq_def] at h
  split at h
  · obtain ⟨_, -, heq⟩ := Option.map_eq_some_iff.1 h
    cases heq
    trivial
  · obtain ⟨_, -, heq⟩ := Option.map_eq_some_iff.1 h
    cases heq
    trivial
  · cases h
  · obtain ⟨_, -, heq⟩ := Option.map_eq_some_iff.1 h
    cases heq
    trivial
  · simp only [takeClosing?, Option.bind_eq_bind, Option.bind_eq_some_iff] at h
    obtain ⟨⟨name, s⟩, -, _, -, heq⟩ := h
    cases heq
    trivial
  · cases h
  · exact isNamed_of_takeOpening? h
  · simp only [takeText?] at h
    split_ifs at h
    cases h
    trivial

theorem isNamed_of_mem_takeContent {fuel level : Nat} {token : Token} (h : token ∈ (takeContent fuel level s).1) :
    token.IsNamed := by
  induction fuel, level, s using takeContent.induct with
  | case1 | case2 => simp [takeContent] at h
  | case3 level s hs hlevel =>
      rw [takeContent, List.mem_singleton] at h
      · rw [h]
        trivial
      · exact hlevel
      · exact hs
  | case4 fuel level s hs hnone =>
      rw [takeContent, hnone, List.mem_singleton] at h
      · rw [h]
        trivial
      · exact hs
  | case5 fuel level s hs first rest hfirst next tokens rest' htokens ih =>
      rw [takeContent, hfirst] at h
      · rcases List.mem_cons.1 h with rfl | h
        · exact isNamed_of_takeToken? hfirst
        · exact ih h
      · exact hs

end Tokens

structure Frame.IsNamed (f : Frame) : Prop where
  name : IsWritten f.name.part
  attributes : ∀ a ∈ f.attributes, IsWritten a.name.toList
  children : ∀ e, .element e ∈ f.children → e.IsNamed

structure Build.IsNamed (b : Build) : Prop where
  frames : ∀ f ∈ b.frames, f.IsNamed
  root : ∀ e ∈ b.root, e.IsNamed
  pending : ∀ a ∈ b.pending.others, IsWritten a.1.part

theorem Frame.IsNamed.cons {f : Frame} (h : f.IsNamed) {child : Content Element}
    (hchild : ∀ e, child = .element e → e.IsNamed) {children : List (Content Element)}
    (hchildren : ∀ e, .element e ∈ children → .element e ∈ f.children) :
    ({ f with children := child :: children } : Frame).IsNamed where
  name := h.name
  attributes := h.attributes
  children e he := (List.mem_cons.1 he).elim (fun heq => hchild e heq.symm) fun he => h.children e (hchildren e he)

namespace Build

variable {b c : Build}

theorem IsNamed.addChild (h : b.IsNamed) {child : Content Element} (hchild : ∀ e, child = .element e → e.IsNamed) :
    (b.addChild child).IsNamed := by
  rw [Build.addChild.eq_def]
  split
  · next f rest hframes =>
    have hf := h.frames
    rw [hframes, List.forall_mem_cons] at hf
    exact ⟨List.forall_mem_cons.2 ⟨hf.1.cons hchild fun _ he => he, hf.2⟩, h.root, h.pending⟩
  · next e hframes =>
    refine ⟨h.frames, ?_, h.pending⟩
    intro d hd
    cases hroot : b.root with
    | none =>
        rw [hroot] at hd
        cases hd
        exact hchild e rfl
    | some e' =>
        rw [hroot] at hd
        cases hd
        exact h.root e' hroot
  · exact h
  · exact h

theorem IsNamed.addText (h : b.IsNamed) (s : String) : (b.addText s).IsNamed := by
  have hadd : (b.addChild (.text s)).IsNamed := h.addChild nofun
  rw [Build.addText.eq_def]
  split
  · next f rest _ hframes =>
    split
    · next t children hchildren =>
      have hf := h.frames
      rw [hframes, List.forall_mem_cons] at hf
      refine ⟨List.forall_mem_cons.2 ⟨hf.1.cons (fun _ h => by cases h) fun _ he => ?_, hf.2⟩, h.root, h.pending⟩
      rw [hchildren]
      exact List.mem_cons_of_mem _ he
    · exact ⟨hadd.frames, hadd.root, hadd.pending⟩
  · exact ⟨hadd.frames, hadd.root, hadd.pending⟩

theorem IsNamed.flush (h : b.IsNamed) (done : List Char) : (b.flush done).IsNamed := by
  rw [Build.flush]
  split_ifs
  · exact h
  · exact h.addText _

end Build

section Attributes

theorem of_foldlM_eq_some {α β : Type} {P : β → Prop} {f : β → α → Option β} {l : List α} {b b' : β}
    (h : l.foldlM f b = some b') (hb : P b) (hf : ∀ a ∈ l, ∀ c c', P c → f c a = some c' → P c') : P b' := by
  induction l generalizing b with
  | nil =>
      cases h
      exact hb
  | cons a l ih =>
      rw [List.foldlM_cons] at h
      obtain ⟨c, hc, h⟩ := Option.bind_eq_some_iff.1 h
      rw [List.forall_mem_cons] at hf
      exact ih h (hf.1 b c hb hc) hf.2

variable {entities : Entities} {budget : Nat}

theorem isWritten_of_readAttribute? {acc acc' : Attributes × Nat} {raw : RawAttribute}
    (h : readAttribute? entities budget acc raw = some acc') (hraw : raw.IsNamed)
    (hacc : ∀ a ∈ acc.1.others, IsWritten a.1.part) : ∀ a ∈ acc'.1.others, IsWritten a.1.part := by
  simp only [readAttribute?, Option.bind_eq_bind, Option.bind_eq_some_iff] at h
  obtain ⟨⟨chars, references⟩, -, declared, -, h⟩ := h
  cases declared <;> cases h
  · exact hacc
  · exact hacc
  · exact List.forall_mem_append.2 ⟨hacc, List.forall_mem_singleton.2 hraw⟩

theorem exists_of_resolveAttribute? {scope : List (List Char × String)} {done done' : List Attribute}
    {attr : QName × String} (h : resolveAttribute? scope done attr = some done') :
    ∃ space, done' = done ++ [⟨space, .ofList attr.1.part, attr.2⟩] := by
  rw [resolveAttribute?] at h
  split_ifs at h
  all_goals
    obtain ⟨space, -, h⟩ := Option.bind_eq_some_iff.1 h
    dsimp only at h
    split_ifs at h
    exact ⟨space, (Option.some.inj h).symm⟩

end Attributes

theorem Frame.IsNamed.close {f : Frame} (h : f.IsNamed) : (Build.Frame.close f).IsNamed := by
  refine .intro ?_ h.attributes fun e he => h.children e (List.mem_reverse.1 he)
  rw [String.toList_ofList]
  exact h.name

theorem exists_of_bind_eq_ok {α β : Type} {x : Except Failure α} {f : α → Except Failure β} {b : β}
    (h : x >>= f = .ok b) : ∃ a, x = .ok a ∧ f a = .ok b := by
  cases x with
  | error e => cases h
  | ok a => exact ⟨a, rfl, h⟩

theorem eq_some_of_orMalformed {α : Type} {o : Option α} {a : α} (h : orMalformed o = .ok a) : o = some a := by
  cases o <;> cases h
  rfl

namespace Build

variable {b c : Build} {entities : Entities} {budget : Nat}

theorem IsNamed.readAttributes? (h : b.IsNamed) {raw : List RawAttribute} (hraw : ∀ a ∈ raw, a.IsNamed)
    (hread : b.readAttributes? entities budget raw = some c) : c.IsNamed := by
  obtain ⟨⟨pending, references⟩, hfold, heq⟩ := Option.bind_eq_some_iff.1 hread
  cases heq
  refine ⟨h.frames, h.root, ?_⟩
  exact of_foldlM_eq_some (P := fun acc => ∀ a ∈ acc.1.others, IsWritten a.1.part) hfold h.pending
    fun a ha _ _ hacc hstep => isWritten_of_readAttribute? hstep (hraw a ha) hacc

theorem IsNamed.resolvePending? (h : b.IsNamed) {scope : List (List Char × String)} {attributes : List Attribute}
    (hresolve : b.resolvePending? = some (scope, attributes)) : ∀ a ∈ attributes, IsWritten a.name.toList := by
  obtain ⟨resolved, hfold, heq⟩ := Option.bind_eq_some_iff.1 hresolve
  cases heq
  apply of_foldlM_eq_some hfold
  · simp
  · intro attr hattr done done' hdone hstep
    obtain ⟨space, rfl⟩ := exists_of_resolveAttribute? hstep
    refine List.forall_mem_append.2 ⟨hdone, List.forall_mem_singleton.2 ?_⟩
    rw [String.toList_ofList]
    exact h.pending attr hattr

theorem IsNamed.openTag? (h : b.IsNamed) {name : QName} (hname : IsWritten name.part) {raw : List RawAttribute}
    (hraw : ∀ a ∈ raw, a.IsNamed) {empty : Bool} (hopen : b.openTag? entities budget name raw empty = some c) :
    c.IsNamed := by
  rw [Build.openTag?] at hopen
  split at hopen
  · cases hopen
  · obtain ⟨d, hread, hopen⟩ := Option.bind_eq_some_iff.1 hopen
    obtain ⟨⟨scope, attributes⟩, hresolve, hopen⟩ := Option.bind_eq_some_iff.1 hopen
    obtain ⟨space, -, hopen⟩ := Option.bind_eq_some_iff.1 hopen
    have hd := h.readAttributes? hraw hread
    have hframe : Frame.IsNamed ⟨name, scope, space, attributes, []⟩ :=
      ⟨hname, hd.resolvePending? hresolve, by simp⟩
    have hbuild : Build.IsNamed { d with pending := {}, tagMet := true } := ⟨hd.frames, hd.root, by simp⟩
    dsimp only at hopen
    split_ifs at hopen
    · cases hopen
      refine hbuild.addChild ?_
      rintro _ ⟨⟩
      exact hframe.close
    · cases hopen
      exact ⟨List.forall_mem_cons.2 ⟨hframe, hbuild.frames⟩, hbuild.root, hbuild.pending⟩

theorem IsNamed.closeTag (h : b.IsNamed) {name : QName} (hclose : b.closeTag name = .ok c) : c.IsNamed := by
  rw [Build.closeTag] at hclose
  split at hclose
  · cases hclose
  · obtain ⟨_, -, hclose⟩ := exists_of_bind_eq_ok hclose
    split at hclose
    · next f rest hframes =>
      have hf := h.frames
      rw [hframes, List.forall_mem_cons] at hf
      dsimp only at hclose
      split at hclose
      · cases hclose
      · have hrest : Build.IsNamed { b with frames := rest, pending := {} } := ⟨hf.2, h.root, by simp⟩
        have helement : ∀ e, Content.element (Frame.close f) = .element e → e.IsNamed := by
          rintro _ ⟨⟩
          exact hf.1.close
        have hclosed := hrest.addChild helement
        cases hclose
        exact ⟨hclosed.frames, hclosed.root, hclosed.pending⟩
    · cases hclose

end Build

section Reading

variable {entities : Entities} {b c : Build}

/-- Reading the content of an entity adds written names only. -/
def Keeps (enter : Enter) : Prop :=
  ∀ tokens b c, (∀ t ∈ tokens, Token.IsNamed t) → b.IsNamed → enter tokens b = .ok c → c.IsNamed

theorem isNamed_of_readText {inEntity : Bool} {enter : Enter} (henter : Keeps enter) {pieces : List Piece}
    {done : List Char} {asIs : Bool} (h : b.IsNamed)
    (hread : readText entities inEntity enter pieces done asIs b = .ok c) : c.IsNamed := by
  induction pieces generalizing done asIs b with
  | nil =>
      cases hread
      exact h.flush done
  | cons piece rest ih =>
      cases piece with
      | plain d => exact ih h hread
      | malformed => cases hread
      | reference reference =>
          cases reference with
          | char d =>
              rw [readText] at hread
              split_ifs at hread
              · exact ih h hread
              · exact ih h hread
          | entity name =>
              rw [readText] at hread
              obtain ⟨value, -, hread⟩ := exists_of_bind_eq_ok hread
              obtain ⟨references, -, hread⟩ := exists_of_bind_eq_ok hread
              obtain ⟨after, hafter, hread⟩ := exists_of_bind_eq_ok hread
              have hflushed := h.flush done
              have hstart : Build.IsNamed { b.flush done with references, tagMet := false } :=
                ⟨hflushed.frames, hflushed.root, hflushed.pending⟩
              have hnamed := henter _ _ after (fun _ => isNamed_of_mem_takeContent) hstart hafter
              refine ih ?_ hread
              exact ⟨hnamed.frames, hnamed.root, hnamed.pending⟩

theorem isNamed_of_readToken {budget : Nat} {enter : Enter} (henter : Keeps enter) {token : Token}
    (htoken : token.IsNamed) (h : b.IsNamed) (hread : readToken entities budget enter b token = .ok c) :
    c.IsNamed := by
  cases token with
  | opening name raw empty => exact h.openTag? htoken.1 htoken.2 (eq_some_of_orMalformed hread)
  | unfinished name raw =>
      rw [readToken] at hread
      split_ifs at hread
      exact h.readAttributes? htoken.2 (eq_some_of_orMalformed hread)
  | closing name => exact h.closeTag hread
  | text raw => exact isNamed_of_readText henter h hread
  | characterData raw =>
      cases hread
      exact h.addText _
  | gap =>
      cases hread
      have hb : (b.addChild .gap).IsNamed := h.addChild nofun
      exact ⟨hb.frames, hb.root, hb.pending⟩
  | malformed => cases hread

theorem isNamed_of_foldlM_readToken {budget : Nat} {enter : Enter} (henter : Keeps enter) {tokens : List Token}
    (htokens : ∀ t ∈ tokens, t.IsNamed) (h : b.IsNamed)
    (hread : tokens.foldlM (readToken entities budget enter) b = .ok c) : c.IsNamed := by
  induction tokens generalizing b with
  | nil =>
      cases hread
      exact h
  | cons token tokens ih =>
      rw [List.foldlM_cons] at hread
      obtain ⟨next, hnext, hread⟩ := exists_of_bind_eq_ok hread
      rw [List.forall_mem_cons] at htokens
      exact ih htokens.2 (isNamed_of_readToken henter htokens.1 h hnext) hread

theorem keeps_readContent (budget : Nat) : Keeps (readContent entities budget) := by
  -- entities in entities are read with one level less
  induction budget with
  | zero =>
      intro tokens b c htokens h hread
      refine isNamed_of_foldlM_readToken ?_ htokens h hread
      intro _ _ _ _ _ h
      cases h
  | succ budget ih =>
      intro tokens b c htokens h hread
      exact isNamed_of_foldlM_readToken ih htokens h hread

end Reading

theorem isNamed_of_parse {s : String} {e : Element} (h : parse s = .ok e) : e.IsNamed := by
  rw [parse] at h
  obtain ⟨⟨entities, rest⟩, -, h⟩ := exists_of_bind_eq_ok h
  obtain ⟨⟨first, rest⟩, hfirst, h⟩ := exists_of_bind_eq_ok h
  obtain ⟨built, hbuilt, h⟩ := exists_of_bind_eq_ok h
  have hnamed : built.IsNamed := by
    refine keeps_readContent maxDepth _ {} built ?_ ⟨by simp, by simp, by simp⟩ hbuilt
    rw [List.forall_mem_append, List.forall_mem_cons]
    refine ⟨⟨isNamed_of_takeOpening? (eq_some_of_orMalformed hfirst), fun _ => isNamed_of_mem_takeContent⟩, ?_⟩
    intro token htoken
    split_ifs at htoken
    · simp at htoken
    · rw [List.mem_singleton.1 htoken]
      trivial
  split_ifs at h
  exact hnamed.root e (eq_some_of_orMalformed h)

end DesignCompiler.Xml

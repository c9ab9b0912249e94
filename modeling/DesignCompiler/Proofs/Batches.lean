import Mathlib.Data.List.Basic
import DesignCompiler.Proofs.Replies

namespace DesignCompiler

open Conversation

namespace Assets

/-- The keys of a kind that were not claimed before, each once, in the order in which they are requested. -/
def fresh (kind : String) (keys : List String) (ledger : Ledger) : List String :=
  (keys.filter fun key => !ledger.contains (kind, key)).eraseDups

theorem mem_fresh {kind key : String} {keys : List String} {ledger : Ledger} :
    key ∈ fresh kind keys ledger ↔ key ∈ keys ∧ (kind, key) ∉ ledger := by
  simp [fresh]

theorem nodup_eraseDups (keys : List String) : keys.eraseDups.Nodup := by
  match keys with
  | [] => exact List.nodup_nil
  | key :: keys =>
    rw [List.eraseDups_cons]
    refine List.nodup_cons.2 ⟨?_, nodup_eraseDups _⟩
    simp
termination_by keys.length
decreasing_by exact Nat.lt_succ_of_le (List.length_filter_le ..)

namespace Ledger

theorem claim_fst (kind : String) (keys : List String) (ledger : Ledger) :
    (claim kind keys ledger).1 = fresh kind keys ledger := by
  induction keys generalizing ledger with
  | nil => rfl
  | cons key keys ih =>
      rw [claim, fresh, List.filter_cons]
      by_cases hkey : (kind, key) ∈ ledger
      · simpa [hkey, fresh] using ih ledger
      · -- the claimed key is not fresh for the rest of the keys
        have hrest : keys.filter (fun k => !(ledger ++ [(kind, key)]).contains (kind, k)) =
            (keys.filter fun k => !ledger.contains (kind, k)).filter fun k => !k == key := by
          rw [List.filter_filter]
          refine List.filter_congr fun k _ => ?_
          by_cases hk : k = key <;> simp [hk]
        have hunclaimed : (!ledger.contains (kind, key)) = true := by simpa using hkey
        rw [if_neg hkey, if_pos hunclaimed]
        dsimp only
        rw [ih, fresh, hrest, List.eraseDups_cons]

theorem fresh_append_map {kind kind' : String} (h : kind ≠ kind') (keys keys' : List String) (ledger : Ledger) :
    fresh kind keys (ledger ++ keys'.map (kind', ·)) = fresh kind keys ledger := by
  rw [fresh, fresh]
  congr 1
  refine List.filter_congr fun key _ => ?_
  simp [h.symm]

end Ledger

def Request.fresh (request : Request) (ledger : Ledger) : Request where
  vectors := Assets.fresh "vector" request.vectors ledger
  images := Assets.fresh "image" request.images ledger
  masks := Assets.fresh "mask" request.masks ledger

def Request.entries (request : Request) : Ledger :=
  request.vectors.map ("vector", ·) ++ request.images.map ("image", ·) ++ request.masks.map ("mask", ·)

theorem claim_fresh (request : Request) (ledger : Ledger) :
    let vectors := Ledger.claim "vector" request.vectors ledger
    let images := Ledger.claim "image" request.images vectors.2
    let masks := Ledger.claim "mask" request.masks images.2
    vectors.1 = (request.fresh ledger).vectors ∧ images.1 = (request.fresh ledger).images ∧
      masks.1 = (request.fresh ledger).masks ∧ masks.2 = ledger ++ (request.fresh ledger).entries := by
  have hkinds : "image" ≠ "vector" ∧ "mask" ≠ "vector" ∧ "mask" ≠ "image" := by decide
  intro vectors images masks
  have hvectors : vectors.1 = (request.fresh ledger).vectors := Ledger.claim_fst ..
  have hafterVectors : vectors.2 = ledger ++ vectors.1.map ("vector", ·) := Ledger.claim_snd ..
  have himages : images.1 = (request.fresh ledger).images := by
    rw [Ledger.claim_fst, hafterVectors, Ledger.fresh_append_map hkinds.1]
    rfl
  have hafterImages : images.2 = vectors.2 ++ images.1.map ("image", ·) := Ledger.claim_snd ..
  have hmasks : masks.1 = (request.fresh ledger).masks := by
    rw [Ledger.claim_fst, hafterImages, hafterVectors, Ledger.fresh_append_map hkinds.2.2,
      Ledger.fresh_append_map hkinds.2.1]
    rfl
  have hafterMasks : masks.2 = images.2 ++ masks.1.map ("mask", ·) := Ledger.claim_snd ..
  refine ⟨hvectors, himages, hmasks, ?_⟩
  rw [hafterMasks, hafterImages, hafterVectors, hvectors, himages, hmasks, Request.entries]
  simp only [List.append_assoc]

/-- Keys of a kind that were claimed between two states of the ledger, each of them once. -/
structure Ledger.Claims (kind : String) (before after : Ledger) (keys : List String) : Prop where
  nodup : keys.Nodup
  notMem : ∀ key ∈ keys, (kind, key) ∉ before
  mem : ∀ key ∈ keys, (kind, key) ∈ after

namespace Ledger

variable {kind : String} {a b c : Ledger} {keys keys' : List String}

theorem Claims.nil (kind : String) (a b : Ledger) : Claims kind a b [] := ⟨List.nodup_nil, by simp, by simp⟩

theorem Claims.append (h : Claims kind a b keys) (h' : Claims kind b c keys') (hab : a ⊆ b)
    (hbc : b ⊆ c) : Claims kind a c (keys ++ keys') := by
  refine ⟨List.nodup_append.2 ⟨h.nodup, h'.nodup, ?_⟩, ?_, ?_⟩
  · rintro key hkey _ hkey' rfl
    exact h'.notMem key hkey' (h.mem key hkey)
  · intro key hkey ha
    rcases List.mem_append.1 hkey with hkey | hkey
    · exact h.notMem key hkey ha
    · exact h'.notMem key hkey (hab ha)
  · intro key hkey
    rcases List.mem_append.1 hkey with hkey | hkey
    · exact hbc (h.mem key hkey)
    · exact h'.mem key hkey

theorem Claims.sublist (h : Claims kind a b keys) (hkeys : keys'.Sublist keys) : Claims kind a b keys' where
  nodup := h.nodup.sublist hkeys
  notMem key hkey := h.notMem key (hkeys.subset hkey)
  mem key hkey := h.mem key (hkeys.subset hkey)

theorem claims_fresh (h : ∀ key ∈ fresh kind keys a, (kind, key) ∈ b) : Claims kind a b (fresh kind keys a) where
  nodup := nodup_eraseDups _
  notMem _ hkey := (mem_fresh.1 hkey).2
  mem := h

end Ledger

/-- A phase asks nothing, or it names its keys, of which there is at least one, and then fetches some
URLs, each of them once. -/
def Phase (first : List Question) (keys : List String) (questions : List Question) : Prop :=
  questions = [] ∨
    keys ≠ [] ∧ ∃ urls : List String, urls.Nodup ∧ questions = first ++ urls.map .fetch

theorem hears_mapM_pose {urls : List String} {log : List Reply}
    {replies : List (Except FetchError Resource)}
    (h : Hears (urls.mapM fun url => pose (.fetch url)) log replies) :
    replies.length = urls.length ∧ log = (urls.zip replies).map fun e => ⟨.fetch e.1, e.2⟩ := by
  induction urls generalizing log replies with
  | nil =>
      obtain ⟨rfl, rfl⟩ := Hears.of_pure h
      exact ⟨rfl, rfl⟩
  | cons url urls ih =>
      rw [List.mapM_cons] at h
      obtain ⟨before, after, reply, rfl, hreply, h⟩ := h.of_bind
      obtain ⟨before', after', rest, rfl, hrest, h⟩ := h.of_bind
      obtain ⟨rfl, rfl⟩ := Hears.of_pure h
      obtain ⟨hlength, rfl⟩ := ih hrest
      rw [hreply.of_pose]
      exact ⟨congrArg (· + 1) hlength, by simp⟩

theorem eq_map_of_mapM_id {replies : List (Except FetchError Resource)} {bodies : List Resource}
    (h : replies.mapM (id : Except FetchError Resource → _) = .ok bodies) :
    replies = bodies.map .ok := by
  induction replies generalizing bodies with
  | nil =>
      cases h
      rfl
  | cons reply replies ih =>
      rw [List.mapM_cons] at h
      cases reply with
      | error e => cases h
      | ok body =>
          cases hrest : replies.mapM (id : Except FetchError Resource → _) with
          | error e =>
              rw [hrest] at h
              cases h
          | ok rest =>
              rw [hrest] at h
              cases h
              rw [ih hrest]
              rfl

theorem hears_fetchAll {urls : List String} {log : List Reply}
    {result : Except FetchError (Table Resource)} (h : (fetchAll urls).run.Hears log result) :
    asked log = urls.eraseDups.map .fetch ∧ ∀ bodies, result = .ok bodies →
      bodies.keys = urls.eraseDups ∧ ∀ e ∈ bodies, (⟨.fetch e.1, .ok e.2⟩ : Reply) ∈ log := by
  obtain ⟨before, after, replies, rfl, hreplies, hrest⟩ := hears_lift_bind h
  obtain ⟨hlength, rfl⟩ := hears_mapM_pose hreplies
  have hasked : asked ((urls.eraseDups.zip replies).map fun e => ⟨.fetch e.1, e.2⟩) =
      urls.eraseDups.map .fetch := by
    rw [asked, List.map_map]
    refine Eq.trans (List.map_map (f := Prod.fst) (g := Question.fetch)).symm ?_
    rw [List.map_fst_zip (Nat.le_of_eq hlength.symm)]
  rcases hears_liftExcept_bind hrest with ⟨e, -, rfl, rfl⟩ | ⟨bodies, hbodies, hrest⟩
  · rw [List.append_nil]
    exact ⟨hasked, fun _ h => by cases h⟩
  · obtain ⟨rfl, rfl⟩ := Hears.of_pure hrest
    obtain rfl := eq_map_of_mapM_id hbodies
    rw [List.append_nil]
    rw [List.length_map] at hlength
    refine ⟨hasked, ?_⟩
    rintro _ ⟨⟩
    refine ⟨List.map_fst_zip (Nat.le_of_eq hlength.symm), fun e he => ?_⟩
    rw [List.zip_map_right, List.map_map]
    exact List.mem_map_of_mem he

theorem hears_fetchEach {urls : Table String} {log : List Reply}
    {result : Except FetchError (Table Fetched)} (h : (fetchEach urls).run.Hears log result) :
    asked log = urls.values.eraseDups.map .fetch ∧ ∀ fetched, result = .ok fetched →
      fetched.map (fun e => (e.1, e.2.url)) = urls ∧
        ∀ e ∈ fetched, (⟨.fetch e.2.url, .ok e.2.body⟩ : Reply) ∈ log := by
  rcases hears_bind h with ⟨e, he, rfl⟩ | ⟨before, after, bodies, rfl, hbodies, hrest⟩
  · exact ⟨(hears_fetchAll he).1, fun _ h => by cases h⟩
  · obtain ⟨rfl, rfl⟩ := Hears.of_pure hrest
    obtain ⟨hasked, hall⟩ := hears_fetchAll hbodies
    obtain ⟨hkeys, hmem⟩ := hall bodies rfl
    rw [List.append_nil]
    refine ⟨hasked, ?_⟩
    rintro _ ⟨⟩
    constructor
    · rw [List.map_filterMap]
      refine (List.filterMap_congr fun ⟨key, url⟩ he => ?_).trans List.filterMap_some
      have hurl : url ∈ bodies.keys := by
        rw [hkeys, List.mem_eraseDups]
        exact List.mem_map_of_mem (f := Prod.snd) he
      obtain ⟨body, hbody⟩ := Option.ne_none_iff_exists'.1 (mt Table.lookup_eq_none.1 (not_not.2 hurl))
      dsimp only
      rw [hbody]
      rfl
    · intro e he
      obtain ⟨⟨key, url⟩, -, he⟩ := List.mem_filterMap.1 he
      obtain ⟨body, hbody, rfl⟩ := Option.map_eq_some_iff.1 he
      exact hmem _ (Table.mem_of_lookup hbody)

theorem phase_of_fetchEach {first : List Question} {keys : List String} {urls : Table String}
    (before : List Reply) {after : List Reply} {result : Except FetchError (Table Fetched)}
    (hkeys : keys.isEmpty = false) (hfirst : asked before = first)
    (h : (fetchEach urls).run.Hears after result) : Phase first keys (asked (before ++ after)) := by
  refine .inr ⟨by simpa using hkeys, urls.values.eraseDups, nodup_eraseDups _, ?_⟩
  rw [← hfirst, ← (hears_fetchEach h).1, asked, List.map_append]
  rfl

theorem phase_of_failure {first : List Question} {keys : List String} {log : List Reply}
    (hkeys : keys.isEmpty = false) (hfirst : asked log = first) : Phase first keys (asked log) :=
  .inr ⟨by simpa using hkeys, [], List.nodup_nil, by simp [hfirst]⟩

theorem phase_fetchVectors {ids : List String} {log : List Reply}
    {result : Except FetchError (Table Fetched)} (h : (fetchVectors ids).run.Hears log result) :
    Phase [.exports (.svg ids true), .exports (.svg ids false)] ids (asked log) := by
  unfold fetchVectors at h
  split at h
  · obtain ⟨-, rfl⟩ := Hears.of_pure h
    exact .inl rfl
  · next hids =>
    simp only [Bool.not_eq_true] at hids
    obtain ⟨before, after, absolute, rfl, habsolute, hrest⟩ := hears_lift_bind h
    obtain ⟨before', after, relative, rfl, hrelative, hrest⟩ := hears_lift_bind hrest
    have hfirst : asked (before ++ before') = [.exports (.svg ids true), .exports (.svg ids false)] := by
      rw [habsolute.of_pose, hrelative.of_pose]
      rfl
    rw [← List.append_assoc]
    rcases hears_liftExcept_bind hrest with ⟨e, -, -, rfl⟩ | ⟨absolute, -, hrest⟩
    · rw [List.append_nil]
      exact phase_of_failure hids hfirst
    · rcases hears_liftExcept_bind hrest with ⟨e, -, -, rfl⟩ | ⟨relative, -, hrest⟩
      · rw [List.append_nil]
        exact phase_of_failure hids hfirst
      · exact phase_of_fetchEach _ hids hfirst hrest

theorem phase_fetchImages {refs : List String} {log : List Reply}
    {result : Except FetchError (Table Fetched)} (h : (fetchImages refs).run.Hears log result) :
    Phase [.fills] refs (asked log) := by
  unfold fetchImages at h
  split at h
  · obtain ⟨-, rfl⟩ := Hears.of_pure h
    exact .inl rfl
  · next hrefs =>
    simp only [Bool.not_eq_true] at hrefs
    rcases hears_ask_bind h with ⟨e, rfl, -⟩ | ⟨after, fills, rfl, hrest⟩
    · exact phase_of_failure hrefs rfl
    · exact phase_of_fetchEach [_] hrefs rfl hrest

theorem phase_fetchMasks {o : Options} {ids : List String} {log : List Reply}
    {result : Except FetchError (Table Fetched)} (h : (fetchMasks o ids).run.Hears log result) :
    Phase [.exports (.raster ids o.imageFormat o.imageScale)] ids (asked log) := by
  unfold fetchMasks at h
  split at h
  · obtain ⟨-, rfl⟩ := Hears.of_pure h
    exact .inl rfl
  · next hids =>
    simp only [Bool.not_eq_true] at hids
    rcases hears_ask_bind h with ⟨e, rfl, -⟩ | ⟨after, exports, rfl, hrest⟩
    · exact phase_of_failure hids rfl
    · exact phase_of_fetchEach [_] hids rfl hrest

namespace Resolver

variable {r : Resolver}

/-- How a call for fresh keys can end, by the first of its phases that fails. -/
inductive Outcome (r : Resolver) (vectorIds imageRefs maskIds : List String) (p : Progress) :
    List Reply → Except DesignError Resources → Progress → Prop
  | vectorsFail {log : List Reply} {e : FetchError}
      (hvectors : (fetchVectors vectorIds).run.Hears log (.error e)) :
      Outcome r vectorIds imageRefs maskIds p log (.error (.fetch e)) p
  | imagesFail {log log' : List Reply} {vectors : Table Fetched} {e : FetchError}
      (hvectors : (fetchVectors vectorIds).run.Hears log (.ok vectors))
      (himages : (fetchImages imageRefs).run.Hears log' (.error e)) :
      Outcome r vectorIds imageRefs maskIds p (log ++ log') (.error (.fetch e)) p
  | masksEnd {log log' log'' : List Reply} {vectors images : Table Fetched}
      {exported : Except FetchError (Table Fetched)} {result : Except DesignError Resources}
      (hvectors : (fetchVectors vectorIds).run.Hears log (.ok vectors))
      (himages : (fetchImages imageRefs).run.Hears log' (.ok images))
      (hmasks : (fetchMasks r.options maskIds).run.Hears log'' exported)
      (hresult : ∀ resources, result = .ok resources → ∃ fetched references,
        exported = .ok fetched ∧
        maskIds.mapM (r.maskReference? fetched
          (Table.putAll (vectors.map fun (id, f) => (id, f.markup)) p.markup)) = .ok references ∧
        resources = r.resources vectors images
          ((maskIds.zip references).filterMap fun (id, reference) => reference.map (id, ·))) :
      Outcome r vectorIds imageRefs maskIds p (log ++ log' ++ log'') result
        { p with markup := Table.putAll (vectors.map fun (id, f) => (id, f.markup)) p.markup }

theorem outcome_of_hears {request : Request} {p p' : Progress} {log : List Reply}
    {result : Except DesignError Resources} (h : (r.resolve request p).Hears log (result, p')) :
    let claimed := request.fresh p.ledger
    Outcome r claimed.vectors claimed.images claimed.masks { p with ledger := p.ledger ++ claimed.entries } log result
      p' := by
  intro claimed
  obtain ⟨hvectorIds, himageRefs, hmaskIds, hledger⟩ := claim_fresh request p.ledger
  rw [← hvectorIds, ← himageRefs, ← hmaskIds, ← hledger]
  rw [resolve] at h
  dsimp only at h
  obtain ⟨before, after, both, rfl, hboth, hafter⟩ := h.of_bind
  clear h
  rcases hears_bind hboth with ⟨e, hvectors, rfl⟩ | ⟨before, after', fetched, rfl, hvectors, hrest⟩
  · obtain ⟨hp, rfl⟩ := Hears.of_pure hafter
    cases hp
    rw [List.append_nil]
    exact .vectorsFail hvectors
  rcases hears_bind hrest with ⟨e, himages, rfl⟩ | ⟨between, after'', fills, rfl, himages, hdone⟩
  · obtain ⟨hp, rfl⟩ := Hears.of_pure hafter
    cases hp
    rw [List.append_nil]
    exact .imagesFail hvectors himages
  obtain ⟨rfl, rfl⟩ := Hears.of_pure hdone
  dsimp only at hafter
  obtain ⟨last, rest, exported, rfl, hmasks, hend⟩ := hafter.of_bind
  rw [List.append_nil, ← List.append_assoc]
  cases exported with
  | error e =>
      obtain ⟨hp, rfl⟩ := Hears.of_pure hend
      cases hp
      rw [List.append_nil]
      exact .masksEnd hvectors himages hmasks fun _ h => by cases h
  | ok exported =>
      dsimp only at hend
      split at hend
      · obtain ⟨hp, rfl⟩ := Hears.of_pure hend
        cases hp
        rw [List.append_nil]
        exact .masksEnd hvectors himages hmasks fun _ h => by cases h
      · next references hreferences =>
        obtain ⟨hp, rfl⟩ := Hears.of_pure hend
        cases hp
        rw [List.append_nil]
        refine .masksEnd hvectors himages hmasks ?_
        rintro _ ⟨⟩
        exact ⟨exported, references, rfl, hreferences, rfl⟩

end Resolver

/-- The questions of a call, phase by phase. A mask that is exported as vector markup can be asked for in
the words of a vector, so that the phases are kept apart. -/
structure Phases where
  vectors : List Question
  images : List Question
  masks : List Question

def Phases.all (p : Phases) : List Question := p.vectors ++ p.images ++ p.masks

structure Phases.Fits (o : Options) (claimed : Request) (p : Phases) : Prop where
  vectors : Phase [.exports (.svg claimed.vectors true), .exports (.svg claimed.vectors false)] claimed.vectors
    p.vectors
  images : Phase [.fills] claimed.images p.images
  masks : Phase [.exports (.raster claimed.masks o.imageFormat o.imageScale)] claimed.masks p.masks

theorem Phase.nil (first : List Question) (keys : List String) : Phase first keys [] := .inl rfl

theorem Resolver.Outcome.exists_phases {r : Resolver} {claimed : Request} {p p' : Progress} {log : List Reply}
    {result : Except DesignError Resources}
    (h : Outcome r claimed.vectors claimed.images claimed.masks p log result p') :
    p'.ledger = p.ledger ∧ ∃ phases : Phases, phases.all = asked log ∧ phases.Fits r.options claimed := by
  cases h with
  | vectorsFail hvectors =>
      exact ⟨rfl, ⟨_, [], []⟩, by simp [Phases.all, asked], phase_fetchVectors hvectors, .nil .., .nil ..⟩
  | imagesFail hvectors himages =>
      exact ⟨rfl, ⟨_, _, []⟩, by simp [Phases.all, asked], phase_fetchVectors hvectors,
        phase_fetchImages himages, .nil ..⟩
  | masksEnd hvectors himages hmasks =>
      exact ⟨rfl, ⟨_, _, _⟩, by simp [Phases.all, asked], phase_fetchVectors hvectors,
        phase_fetchImages himages, phase_fetchMasks hmasks⟩

def svgIds (absolute : Bool) : Question → List String
  | .exports e => if e = .svg e.ids absolute then e.ids else []
  | _ => []

def rasterIds (o : Options) : Question → List String
  | .exports e => if e = .raster e.ids o.imageFormat o.imageScale then e.ids else []
  | _ => []

def fetchedUrl? : Question → Option String
  | .fetch url => some url
  | _ => none

theorem fetches_append_inj {urls urls' : List String} {rest rest' : List Question}
    (hrest : ∀ q ∈ rest.head?, fetchedUrl? q = none) (hrest' : ∀ q ∈ rest'.head?, fetchedUrl? q = none)
    (h : urls.map Question.fetch ++ rest = urls'.map Question.fetch ++ rest') : urls = urls' ∧ rest = rest' := by
  induction urls generalizing urls' with
  | nil =>
      cases urls' with
      | nil => exact ⟨rfl, h⟩
      | cons url urls' =>
          obtain rfl : rest = .fetch url :: (urls'.map Question.fetch ++ rest') := h
          cases hrest _ rfl
  | cons url urls ih =>
      cases urls' with
      | nil =>
          obtain rfl : .fetch url :: (urls.map Question.fetch ++ rest) = rest' := h
          cases hrest' _ rfl
      | cons url' urls' =>
          obtain ⟨hurl, h⟩ := List.cons.inj h
          obtain ⟨rfl, rfl⟩ := ih h
          cases hurl
          exact ⟨rfl, rfl⟩

namespace Phase

variable {first : List Question} {keys : List String} {questions : List Question}

theorem mem (h : Phase first keys questions) {q : Question} (hq : q ∈ questions) :
    keys ≠ [] ∧ q ∈ first ∨ ∃ url, q = .fetch url := by
  rcases h with rfl | ⟨hkeys, urls, -, rfl⟩
  · cases hq
  · rcases List.mem_append.1 hq with hq | hq
    · exact .inl ⟨hkeys, hq⟩
    · obtain ⟨url, -, rfl⟩ := List.mem_map.1 hq
      exact .inr ⟨url, rfl⟩

theorem sublist_flatMap (h : Phase first keys questions) (select : Question → List String)
    (hfetch : ∀ url, select (.fetch url) = []) :
    (questions.flatMap select).Sublist (first.flatMap select) := by
  rcases h with rfl | ⟨-, urls, -, rfl⟩
  · exact List.nil_sublist _
  · have hurls : (urls.map Question.fetch).flatMap select = [] := by
      simp [List.flatMap_eq_nil_iff, hfetch]
    rw [List.flatMap_append, hurls, List.append_nil]

theorem nodup_fetched (h : Phase first keys questions) (hfirst : ∀ q ∈ first, fetchedUrl? q = none) :
    (questions.filterMap fetchedUrl?).Nodup := by
  rcases h with rfl | ⟨-, urls, hurls, rfl⟩
  · exact List.nodup_nil
  · have hmap : (urls.map Question.fetch).filterMap fetchedUrl? = urls := by
      rw [List.filterMap_map]
      exact List.filterMap_some
    rw [List.filterMap_append, List.filterMap_eq_nil_iff.2 hfirst, List.nil_append, hmap]
    exact hurls

/-- A phase ends where something else than a fetch follows, so that where it begins tells what it asks. -/
theorem append_inj {questions' rest rest' : List Question} (h : Phase first keys questions)
    (h' : Phase first keys questions') (hrest : ¬first <+: rest ∧ ∀ q ∈ rest.head?, fetchedUrl? q = none)
    (hrest' : ¬first <+: rest' ∧ ∀ q ∈ rest'.head?, fetchedUrl? q = none)
    (heq : questions ++ rest = questions' ++ rest') : questions = questions' ∧ rest = rest' := by
  rcases h with rfl | ⟨-, urls, -, rfl⟩
  · rcases h' with rfl | ⟨-, urls', -, rfl⟩
    · exact ⟨rfl, heq⟩
    · rw [List.nil_append, List.append_assoc] at heq
      exact absurd ⟨_, heq.symm⟩ hrest.1
  · rcases h' with rfl | ⟨-, urls', -, rfl⟩
    · rw [List.nil_append, List.append_assoc] at heq
      exact absurd ⟨_, heq⟩ hrest'.1
    · rw [List.append_assoc, List.append_assoc, List.append_cancel_left_eq] at heq
      obtain ⟨rfl, rfl⟩ := fetches_append_inj hrest.2 hrest'.2 heq
      exact ⟨rfl, rfl⟩

end Phase

namespace Phases.Fits

variable {o : Options} {claimed : Request} {p q : Phases}

theorem sublist_svgIds (h : p.Fits o claimed) (absolute : Bool) :
    (p.vectors.flatMap (svgIds absolute)).Sublist claimed.vectors := by
  have hfirst := h.vectors.sublist_flatMap (svgIds absolute) fun _ => rfl
  cases absolute <;> simpa [svgIds, ExportRequest.svg] using hfirst

theorem sublist_rasterIds (h : p.Fits o claimed) :
    (p.masks.flatMap (rasterIds o)).Sublist claimed.masks := by
  have hfirst := h.masks.sublist_flatMap (rasterIds o) fun _ => rfl
  simpa [rasterIds, ExportRequest.raster] using hfirst

theorem nodup_fetched (h : p.Fits o claimed) :
    (p.vectors.filterMap fetchedUrl?).Nodup ∧ (p.images.filterMap fetchedUrl?).Nodup ∧
      (p.masks.filterMap fetchedUrl?).Nodup :=
  ⟨h.vectors.nodup_fetched (by simp [fetchedUrl?]), h.images.nodup_fetched (by simp [fetchedUrl?]),
    h.masks.nodup_fetched (by simp [fetchedUrl?])⟩

theorem ids_of_exports (h : p.Fits o claimed) {e : ExportRequest}
    (he : .exports e ∈ p.all) : e.ids ≠ [] ∧ (e.ids = claimed.vectors ∨ e.ids = claimed.masks) := by
  rw [Phases.all, List.mem_append, List.mem_append] at he
  rcases he with (he | he) | he
  · rcases h.vectors.mem he with ⟨hids, he⟩ | ⟨url, ⟨⟩⟩
    have hids' : e.ids = claimed.vectors := by
      rcases List.mem_pair.1 he with he | he <;> cases he <;> rfl
    exact ⟨hids' ▸ hids, .inl hids'⟩
  · rcases h.images.mem he with ⟨-, he⟩ | ⟨url, ⟨⟩⟩
    cases List.mem_singleton.1 he
  · rcases h.masks.mem he with ⟨hids, he⟩ | ⟨url, ⟨⟩⟩
    cases List.mem_singleton.1 he
    exact ⟨hids, .inr rfl⟩

theorem count_fills_le (h : p.Fits o claimed) : p.all.count .fills ≤ 1 := by
  have hvectors : Question.fills ∉ p.vectors := by
    intro hq
    rcases h.vectors.mem hq with ⟨-, hq⟩ | ⟨url, ⟨⟩⟩
    rcases List.mem_pair.1 hq with hq | hq <;> cases hq
  have hmasks : Question.fills ∉ p.masks := by
    intro hq
    rcases h.masks.mem hq with ⟨-, hq⟩ | ⟨url, ⟨⟩⟩
    cases List.mem_singleton.1 hq
  rw [Phases.all, List.count_append, List.count_append, List.count_eq_zero.2 hvectors,
    List.count_eq_zero.2 hmasks, Nat.zero_add, Nat.add_zero]
  rcases h.images with himages | ⟨-, urls, -, himages⟩
  · rw [himages]
    exact Nat.zero_le _
  · have hurls : Question.fills ∉ urls.map Question.fetch := by simp
    rw [himages, List.count_append, List.count_eq_zero.2 hurls]
    simp

theorem images_of_fills (h : p.Fits o claimed) (hq : .fills ∈ p.all) :
    claimed.images ≠ [] := by
  rw [Phases.all, List.mem_append, List.mem_append] at hq
  rcases hq with (hq | hq) | hq
  · rcases h.vectors.mem hq with ⟨-, hq⟩ | ⟨url, ⟨⟩⟩
    rcases List.mem_pair.1 hq with hq | hq <;> cases hq
  · rcases h.images.mem hq with ⟨hrefs, -⟩ | ⟨url, ⟨⟩⟩
    exact hrefs
  · rcases h.masks.mem hq with ⟨-, hq⟩ | ⟨url, ⟨⟩⟩
    cases List.mem_singleton.1 hq

theorem masks_apart (h : p.Fits o claimed) :
    ¬[Question.fills] <+: p.masks ∧ ∀ c ∈ p.masks.head?, fetchedUrl? c = none := by
  rcases h.masks with hmasks | ⟨-, urls, -, hmasks⟩ <;> rw [hmasks]
  · exact ⟨by simp, by simp⟩
  · exact ⟨by simp, by simp [fetchedUrl?]⟩

theorem images_apart (h : p.Fits o claimed) :
    ¬[.exports (.svg claimed.vectors true), .exports (.svg claimed.vectors false)] <+: p.images ++ p.masks ∧
      ∀ c ∈ (p.images ++ p.masks).head?, fetchedUrl? c = none := by
  rcases h.images with himages | ⟨-, urls, -, himages⟩ <;> rw [himages]
  · refine ⟨?_, h.masks_apart.2⟩
    -- a mask can be asked for in the words of a vector, but not twice
    rcases h.masks with hmasks | ⟨-, urls, -, hmasks⟩ <;> rw [hmasks]
    · simp
    · cases urls <;> simp
  · exact ⟨by simp, by simp [fetchedUrl?]⟩

/-- The questions of a call tell its phases. -/
theorem eq_of_all_eq (h : p.Fits o claimed) (h' : q.Fits o claimed) (hall : p.all = q.all) : p = q := by
  rw [Phases.all, Phases.all, List.append_assoc, List.append_assoc] at hall
  obtain ⟨hvectors, hrest⟩ := h.vectors.append_inj h'.vectors h.images_apart h'.images_apart hall
  obtain ⟨himages, hmasks⟩ := h.images.append_inj h'.images h.masks_apart h'.masks_apart hrest
  obtain ⟨vectors, images, masks⟩ := p
  exact Phases.mk.injEq .. ▸ ⟨hvectors, himages, hmasks⟩

end Phases.Fits

end Assets

end DesignCompiler

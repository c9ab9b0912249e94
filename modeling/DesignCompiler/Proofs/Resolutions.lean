import DesignCompiler.Proofs.Answers
import DesignCompiler.Proofs.Batches

namespace DesignCompiler.Assets

open Conversation

/-- What is answered to a batch, phase by phase. Each phase ends with bodies, under their URLs. -/
structure Answers where
  absolute : Table (Option String)
  relative : Table (Option String)
  vectorBodies : Table Resource
  fills : Table String
  imageBodies : Table Resource
  rasters : Table (Option String)
  maskBodies : Table Resource

def phase (keys : List String) (first : List Exchange) (bodies : Table Resource) : List Exchange :=
  (if keys.isEmpty then [] else first) ++ fetches bodies

namespace Answers

variable (a : Answers)

/-- The export with absolute bounds counts, and the other one where that is missing. -/
def vectorUrl? (id : String) : Option String := (exportUrl? a.absolute id).or (exportUrl? a.relative id)

def imageUrl? (ref : String) : Option String := a.fills.lookup ref

def maskUrl? (id : String) : Option String := exportUrl? a.rasters id

/-- All that is asked for some keys, with these answers. Every URL is fetched once in each phase. -/
structure To (o : Options) (claimed : Request) (log : List Exchange) : Prop where
  log_eq : log =
    phase claimed.vectors [⟨.exports (.svg claimed.vectors true), a.absolute⟩,
      ⟨.exports (.svg claimed.vectors false), a.relative⟩] a.vectorBodies ++
    phase claimed.images [⟨.fills, a.fills⟩] a.imageBodies ++
    phase claimed.masks [⟨.exports (.raster claimed.masks o.imageFormat o.imageScale), a.rasters⟩] a.maskBodies
  vectors : a.vectorBodies.keys = (claimed.vectors.filterMap a.vectorUrl?).eraseDups
  images : a.imageBodies.keys = (claimed.images.filterMap a.imageUrl?).eraseDups
  masks : a.maskBodies.keys = (claimed.masks.filterMap a.maskUrl?).eraseDups

end Answers

def fetched? (url? : String → Option String) (bodies : Table Resource) (key : String) : Option Fetched :=
  (url? key).bind fun url => (bodies.lookup url).map fun body => ⟨url, body⟩

section Phases

variable {url? : String → Option String} {bodies : Table Resource} {keys : List String} {key : String}

theorem exists_fetched?_eq (h : bodies.keys = (keys.filterMap url?).eraseDups) (hkey : key ∈ keys) {url : String}
    (hurl : url? key = some url) :
    ∃ body, bodies.lookup url = some body ∧ fetched? url? bodies key = some ⟨url, body⟩ := by
  have hmem : url ∈ bodies.keys := by
    rw [h, List.mem_eraseDups]
    exact List.mem_filterMap.2 ⟨key, hkey, hurl⟩
  obtain ⟨body, hbody⟩ := Option.ne_none_iff_exists'.1 (mt Table.lookup_eq_none.1 (not_not.2 hmem))
  exact ⟨body, hbody, by rw [fetched?, hurl, Option.bind_some, hbody, Option.map_some]⟩

theorem fetched?_eq_none (hurl : url? key = none) : fetched? url? bodies key = none := by
  rw [fetched?, hurl, Option.bind_none]

theorem isSome_fetched? (h : bodies.keys = (keys.filterMap url?).eraseDups) (hkey : key ∈ keys) :
    (fetched? url? bodies key).isSome = (url? key).isSome := by
  cases hurl : url? key with
  | none =>
      rw [fetched?_eq_none hurl]
      rfl
  | some url =>
      obtain ⟨body, -, hfetched⟩ := exists_fetched?_eq h hkey hurl
      rw [hfetched]
      rfl

theorem keys_tabulate_fetched? (h : bodies.keys = (keys.filterMap url?).eraseDups) :
    (Table.tabulate (fetched? url? bodies) keys).keys = keys.filter fun key => (url? key).isSome := by
  rw [Table.keys_tabulate]
  exact List.filter_congr fun key hkey => isSome_fetched? h hkey

/-- What is fetched for some keys: of each that has a URL the body behind it. -/
structure Fetching (keys : List String) (first : List Exchange) (url? : String → Option String)
    (bodies : Table Resource) (log : List Exchange) (fetched : Table Fetched) : Prop where
  log_eq : log = phase keys first bodies
  keys_eq : bodies.keys = (keys.filterMap url?).eraseDups
  fetched_eq : fetched = Table.tabulate (fetched? url? bodies) keys

theorem fetching_nil (first : List Exchange) (url? : String → Option String) : Fetching [] first url? [] [] [] :=
  ⟨rfl, rfl, rfl⟩

theorem gives_fetchEach_withUrls (url? : String → Option String) (first : List Exchange) (h : ¬keys.isEmpty) :
    Gives (fun log fetched => ∃ bodies, Fetching keys first url? bodies (first ++ log) fetched)
      (fetchEach (withUrls url? keys)) := by
  refine (gives_fetchEach_eq _).mono ?_
  rintro _ _ ⟨bodies, rfl, hkeys, rfl⟩
  refine ⟨bodies, by rw [phase, if_neg h], ?_, ?_⟩
  · rw [hkeys, Table.values, withUrls, List.map_filterMap]
    simp [Function.comp_def]
  · rw [withUrls, List.filterMap_filterMap, Table.tabulate]
    refine List.filterMap_congr fun key _ => ?_
    rw [fetched?]
    cases url? key <;> simp [Function.comp_def]

theorem gives_fetchVectors_eq (ids : List String) :
    Gives (fun log vectors => ∃ absolute relative bodies,
      Fetching ids [⟨.exports (.svg ids true), absolute⟩, ⟨.exports (.svg ids false), relative⟩]
        (fun id => (exportUrl? absolute id).or (exportUrl? relative id)) bodies log vectors) (fetchVectors ids) := by
  unfold fetchVectors
  split
  · next hids =>
    obtain rfl := List.isEmpty_iff.1 hids
    exact Gives.pure ⟨[], [], [], fetching_nil ..⟩
  · next hids =>
    refine Gives.bind (gives_lift fun log a h => answered_pose h) ?_
    rintro _ _ ⟨absolute, rfl, rfl⟩
    refine Gives.bind (gives_lift fun log a h => answered_pose h) ?_
    rintro _ _ ⟨relative, rfl, rfl⟩
    refine Gives.bind (gives_liftExcept (P := fun log a => log = [] ∧ a = absolute) rfl ⟨rfl, rfl⟩) ?_
    rintro _ _ ⟨rfl, rfl⟩
    refine Gives.bind (gives_liftExcept (P := fun log a => log = [] ∧ a = relative) rfl ⟨rfl, rfl⟩) ?_
    rintro _ _ ⟨rfl, rfl⟩
    exact (gives_fetchEach_withUrls _ _ hids).mono fun log fetched h => ⟨_, _, h⟩

theorem gives_fetchImages_eq (refs : List String) :
    Gives (fun log images => ∃ fills bodies,
      Fetching refs [⟨.fills, fills⟩] (fun ref => fills.lookup ref) bodies log images) (fetchImages refs) := by
  unfold fetchImages
  split
  · next hrefs =>
    obtain rfl := List.isEmpty_iff.1 hrefs
    exact Gives.pure ⟨[], [], fetching_nil ..⟩
  · next hrefs =>
    refine Gives.bind (gives_ask _) ?_
    rintro _ fills rfl
    exact (gives_fetchEach_withUrls _ _ hrefs).mono fun log fetched h => ⟨_, h⟩

theorem gives_fetchMasks_eq (o : Options) (ids : List String) :
    Gives (fun log exported => ∃ rasters bodies,
      Fetching ids [⟨.exports (.raster ids o.imageFormat o.imageScale), rasters⟩] (exportUrl? rasters) bodies log
        exported) (fetchMasks o ids) := by
  unfold fetchMasks
  split
  · next hids =>
    obtain rfl := List.isEmpty_iff.1 hids
    exact Gives.pure ⟨[], [], fetching_nil ..⟩
  · next hids =>
    refine Gives.bind (gives_ask _) ?_
    rintro _ rasters rfl
    exact (gives_fetchEach_withUrls _ _ hids).mono fun log fetched h => ⟨_, h⟩

theorem gives_fetchBoth_eq (ids refs : List String) :
    Gives (fun log (p : Table Fetched × Table Fetched) => ∃ before after, log = before ++ after ∧
      (∃ absolute relative bodies,
        Fetching ids [⟨.exports (.svg ids true), absolute⟩, ⟨.exports (.svg ids false), relative⟩]
          (fun id => (exportUrl? absolute id).or (exportUrl? relative id)) bodies before p.1) ∧
      ∃ fills bodies, Fetching refs [⟨.fills, fills⟩] (fun ref => fills.lookup ref) bodies after p.2)
      (do return (← fetchVectors ids, ← fetchImages refs)) := by
  refine Gives.bind (gives_fetchVectors_eq ids) fun log vectors hvectors => ?_
  refine Gives.bind (gives_fetchImages_eq refs) fun log' images himages => Gives.pure ?_
  exact ⟨log, log', by simp, hvectors, himages⟩

end Phases

def Resolver.drawn? (r : Resolver) (markup : Table String) (id : String) : Option Bytes :=
  (markup.lookup id).bind fun m => (r.rasterize m r.options.imageScale).toOption

namespace Resolver

variable {r : Resolver}

def mask? (r : Resolver) (exported : Table Fetched) (markup : Table String) (id : String) : Option Reference :=
  ((exported.lookup id).map (Fetched.reference r.options id)).or
    ((r.drawn? markup id).map fun png => .resolve r.options id none png "image/png")

theorem maskReference?_eq (hdraw : ∀ m, r.rasterize m r.options.imageScale ≠ .error .closedTwice)
    (exported : Table Fetched) (markup : Table String) (id : String) :
    r.maskReference? exported markup id = .ok (r.mask? exported markup id) := by
  rw [maskReference?, mask?, drawn?]
  cases exported.lookup id with
  | some f => rfl
  | none =>
      cases markup.lookup id with
      | none => rfl
      | some m =>
          have hm := hdraw m
          dsimp only [Option.bind_some]
          cases hpng : r.rasterize m r.options.imageScale with
          | ok png => rfl
          | error e => cases e <;> first | rfl | exact absurd hpng hm

theorem mapM_maskReference? (hdraw : ∀ m, r.rasterize m r.options.imageScale ≠ .error .closedTwice)
    (exported : Table Fetched) (markup : Table String) (ids : List String) :
    ids.mapM (r.maskReference? exported markup) = .ok (ids.map (r.mask? exported markup)) := by
  rw [funext (maskReference?_eq hdraw exported markup)]
  exact List.mapM_pure

theorem filterMap_zip_map {α : Type} (value? : String → Option α) (keys : List String) :
    ((keys.zip (keys.map value?)).filterMap fun (key, value) => value.map (key, ·)) = Table.tabulate value? keys := by
  rw [← List.map_prod_left_eq_zip, List.filterMap_map, Table.tabulate]
  rfl

end Resolver

/-- An asset is referred to by a URL. If that names a file, the file is among those to be written. -/
def Resources.Refers (res : Resources) (reference : Reference) (url : Option String) : Prop :=
  url = some reference.url ∧ ∀ asset ∈ reference.emitted?, asset ∈ res.emitted

/-- The resources of a batch for its fresh keys. There are no others than those with a URL, and the masks that are
drawn. Each has the body behind its own URL. -/
structure Resolves (r : Resolver) (a : Answers) (claimed : Request) (markup : Table String) (res : Resources) :
    Prop where
  keys_vectors : res.vectors.keys = claimed.vectors.filter fun id => (a.vectorUrl? id).isSome
  keys_vectorUrls : res.vectorUrls.keys = res.vectors.keys
  keys_images : res.images.keys = claimed.images.filter fun ref => (a.imageUrl? ref).isSome
  keys_masks : res.masks.keys = claimed.masks.filter fun id => (a.maskUrl? id).isSome || (r.drawn? markup id).isSome
  vector : ∀ id ∈ claimed.vectors, ∀ url ∈ a.vectorUrl? id, ∃ body ∈ a.vectorBodies.lookup url,
    ∃ m ∈ res.vectors.lookup id, m = stretch (Bytes.lossyText body.bytes) ∧
      res.Refers (.resolve r.options id (some url) (Bytes.ofString m) "image/svg+xml") (res.vectorUrls.lookup id)
  image : ∀ ref ∈ claimed.images, ∀ url ∈ a.imageUrl? ref, ∃ body ∈ a.imageBodies.lookup url,
    ∃ image ∈ res.images.lookup ref, image.sourceUrl = url ∧ image.bytes = body.bytes ∧
      image.contentType = Picture.contentType body.bytes body.contentType ∧
      image.width = (Picture.size? body.bytes).map Prod.fst ∧ image.height = (Picture.size? body.bytes).map Prod.snd ∧
      res.Refers (.resolve r.options ref (some url) body.bytes image.contentType) (some image.url)
  exportedMask : ∀ id ∈ claimed.masks, ∀ url ∈ a.maskUrl? id, ∃ body ∈ a.maskBodies.lookup url,
    res.Refers (.resolve r.options id (some url) body.bytes (Picture.contentType body.bytes body.contentType))
      (res.masks.lookup id)
  drawnMask : ∀ id ∈ claimed.masks, a.maskUrl? id = none → ∀ png ∈ r.drawn? markup id,
    res.Refers (.resolve r.options id none png "image/png") (res.masks.lookup id)

section Batch

variable {r : Resolver} {vectors images : Table Fetched} {masks : Table Reference} {key : String}

theorem refers_vector {f : Fetched} (h : vectors.lookup key = some f) :
    (r.resources vectors images masks).Refers (f.vectorReference r.options key)
      ((r.resources vectors images masks).vectorUrls.lookup key) := by
  refine ⟨?_, fun asset hasset => List.mem_filterMap.2 ⟨_, ?_, hasset⟩⟩
  · have hreference := Table.lookup_map_entries (fun id f => f.vectorReference r.options id) vectors key
    exact (Table.lookup_map Reference.url _ key).trans (by rw [hreference, h]; rfl)
  · refine List.mem_append_left _ (List.mem_append_left _ ?_)
    rw [Table.values, List.map_map]
    exact List.mem_map_of_mem (Table.mem_of_lookup h)

theorem refers_image {f : Fetched} (h : images.lookup key = some f) :
    (r.resources vectors images masks).Refers (f.reference r.options key) (some (f.reference r.options key).url) := by
  refine ⟨rfl, fun asset hasset => List.mem_filterMap.2 ⟨_, ?_, hasset⟩⟩
  exact List.mem_append_left _ (List.mem_append_right _ (List.mem_map_of_mem (Table.mem_of_lookup h)))

theorem refers_mask {reference : Reference} (h : masks.lookup key = some reference) :
    (r.resources vectors images masks).Refers reference ((r.resources vectors images masks).masks.lookup key) := by
  refine ⟨?_, fun asset hasset => List.mem_filterMap.2 ⟨reference, ?_, hasset⟩⟩
  · exact (Table.lookup_map Reference.url masks key).trans (by rw [h]; rfl)
  · exact List.mem_append_right _ (List.mem_map_of_mem (Table.mem_of_lookup h))

end Batch

section Batch

variable {r : Resolver} {a : Answers} {claimed : Request} {log : List Exchange}

theorem resolves_resources (h : a.To r.options claimed log) (markup : Table String) :
    Resolves r a claimed markup
      (r.resources (Table.tabulate (fetched? a.vectorUrl? a.vectorBodies) claimed.vectors)
        (Table.tabulate (fetched? a.imageUrl? a.imageBodies) claimed.images)
        (Table.tabulate (r.mask? (Table.tabulate (fetched? a.maskUrl? a.maskBodies) claimed.masks) markup)
          claimed.masks)) := by
  have hkeys {α β : Type} (t : Table α) (g : String × α → β) :
      Table.keys (t.map fun e => (e.1, g e)) = t.keys := by
    simp [Table.keys]
  have hmask {id : String} (hid : id ∈ claimed.masks) :
      r.mask? (Table.tabulate (fetched? a.maskUrl? a.maskBodies) claimed.masks) markup id =
        ((fetched? a.maskUrl? a.maskBodies id).map (Fetched.reference r.options id)).or
          ((r.drawn? markup id).map fun png => .resolve r.options id none png "image/png") := by
    rw [Resolver.mask?, Table.lookup_tabulate _ hid]
  constructor
  case keys_vectors => exact (hkeys _ _).trans (keys_tabulate_fetched? h.vectors)
  case keys_vectorUrls => simp [Resolver.resources, Table.keys]
  case keys_images => exact (hkeys _ _).trans (keys_tabulate_fetched? h.images)
  case keys_masks =>
    refine ((hkeys _ _).trans (Table.keys_tabulate _ _)).trans (List.filter_congr fun id hid => ?_)
    rw [hmask hid, Option.isSome_or, Option.isSome_map, Option.isSome_map, isSome_fetched? h.masks hid]
  case vector =>
    intro id hid url hurl
    obtain ⟨body, hbody, hfetched⟩ := exists_fetched?_eq h.vectors hid hurl
    have hlookup := (Table.lookup_tabulate _ hid).trans hfetched
    refine ⟨body, hbody, _, ?_, rfl, refers_vector hlookup⟩
    exact (Table.lookup_map Fetched.markup _ id).trans (by rw [hlookup]; rfl)
  case image =>
    intro ref href url hurl
    obtain ⟨body, hbody, hfetched⟩ := exists_fetched?_eq h.images href hurl
    have hlookup := (Table.lookup_tabulate _ href).trans hfetched
    refine ⟨body, hbody, Fetched.image r.options ref ⟨url, body⟩, ?_, rfl, rfl, rfl, rfl, rfl, refers_image hlookup⟩
    exact (Table.lookup_map_entries (fun ref (f : Fetched) => f.image r.options ref) _ ref).trans (by rw [hlookup]; rfl)
  case exportedMask =>
    intro id hid url hurl
    obtain ⟨body, hbody, hfetched⟩ := exists_fetched?_eq h.masks hid hurl
    refine ⟨body, hbody, refers_mask ?_⟩
    rw [Table.lookup_tabulate _ hid, hmask hid, hfetched]
    rfl
  case drawnMask =>
    intro id hid hurl png hpng
    refine refers_mask ?_
    rw [Table.lookup_tabulate _ hid, hmask hid, fetched?_eq_none hurl, hpng]
    rfl

end Batch

/-- Batches one after the other whose questions are all answered, with what they resolve and the state after them. -/
inductive Resolver.Batches (r : Resolver) : List Resources → Progress → Prop
  | nil : Batches r [] {}
  | snoc {earlier : List Resources} {p p' : Progress} {request : Request} {log : List Exchange} {res : Resources}
      (batches : Batches r earlier p) (h : (r.resolve request p).Answered log (.ok res, p')) :
      Batches r (earlier ++ [res]) p'

namespace Resolver

variable {r : Resolver} {request : Request} {p p' : Progress} {log : List Exchange}
  {result : Except DesignError Resources} (hdraw : ∀ m, r.rasterize m r.options.imageScale ≠ .error .closedTwice)

include hdraw

theorem exists_resolves (h : (r.resolve request p).Answered log (result, p')) :
    ∃ (a : Answers) (res : Resources), result = .ok res ∧ a.To r.options (request.fresh p.ledger) log ∧
      Resolves r a (request.fresh p.ledger) p'.markup res ∧
      p'.ledger = p.ledger ++ (request.fresh p.ledger).entries ∧ p'.markup = Table.putAll res.vectors p.markup := by
  obtain ⟨hvectorIds, himageRefs, hmaskIds, hledger⟩ := claim_fresh request p.ledger
  rw [resolve] at h
  dsimp only at h
  rw [hvectorIds, himageRefs, hmaskIds, hledger] at h
  obtain ⟨before, after, both, rfl, hboth, h⟩ := h.of_bind
  obtain ⟨⟨vectors, images⟩, rfl, log, log', rfl, hvectors, himages⟩ := gives_fetchBoth_eq _ _ _ _ hboth
  obtain ⟨absolute, relative, vectorBodies, rfl, hvectorBodies, rfl⟩ := hvectors
  obtain ⟨fills, imageBodies, rfl, himageBodies, rfl⟩ := himages
  dsimp only at h
  obtain ⟨middle, after, masks, rfl, hmasks, h⟩ := h.of_bind
  obtain ⟨exported, rfl, rasters, maskBodies, rfl, hmaskBodies, rfl⟩ := gives_fetchMasks_eq _ _ _ _ hmasks
  dsimp only at h
  have ha : Answers.To ⟨absolute, relative, vectorBodies, fills, imageBodies, rasters, maskBodies⟩ r.options
      (request.fresh p.ledger) _ := ⟨rfl, hvectorBodies, himageBodies, hmaskBodies⟩
  rw [mapM_maskReference? hdraw] at h
  obtain ⟨heq, rfl⟩ := Answered.of_pure h
  obtain ⟨rfl, rfl⟩ := Prod.mk.inj heq
  refine ⟨_, _, rfl, by rwa [List.append_nil], ?_, by simp [Request.entries, Request.fresh], rfl⟩
  rw [filterMap_zip_map]
  exact resolves_resources ha _

theorem markup_of_batches {batches : List Resources} (h : r.Batches batches p) :
    p.markup = batches.flatMap Resources.vectors ∧ p.markup.keys.Nodup ∧
      ∀ id ∈ p.markup.keys, ("vector", id) ∈ p.ledger := by
  induction h with
  | nil => exact ⟨rfl, List.nodup_nil, by simp [Table.keys]⟩
  | @snoc earlier p p' request log res _ h ih =>
      obtain ⟨hmarkup, hnodup, hledger⟩ := ih
      obtain ⟨a, _, heq, -, hresolves, hledger', hmarkup'⟩ := exists_resolves hdraw h
      obtain rfl := Except.ok.inj heq
      have hvectors : res.vectors.keys.Sublist (request.fresh p.ledger).vectors :=
        hresolves.keys_vectors ▸ List.filter_sublist
      -- what the batch adds is fresh, and what was there before is in the ledger
      have hdisjoint : (p.markup.keys ++ res.vectors.keys).Nodup :=
        List.nodup_append.2 ⟨hnodup, (nodup_eraseDups _).sublist hvectors, fun id hid id' hid' heq =>
          (mem_fresh.1 (hvectors.subset hid')).2 (heq ▸ hledger id hid)⟩
      have hadded := hmarkup'.trans (Table.putAll_of_nodup hdisjoint)
      have hkeys : p'.markup.keys = p.markup.keys ++ res.vectors.keys := by
        rw [hadded, Table.keys, List.map_append]
        rfl
      refine ⟨by simp [hadded, hmarkup], hkeys ▸ hdisjoint, fun id hid => ?_⟩
      rw [hkeys, List.mem_append] at hid
      rw [hledger', List.mem_append, Request.entries]
      rcases hid with hid | hid
      · exact .inl (hledger id hid)
      · have := hvectors.subset hid
        simp [this]

/-- When all that a batch asks is answered, it resolves. Its fresh keys have their resources, with the bodies behind
their URLs, and the masks without an export are drawn from the markup of the batches so far. -/
theorem resolve_answered (h : (r.resolve request p).Answered log (result, p')) :
    ∃ (a : Answers) (res : Resources), result = .ok res ∧ a.To r.options (request.fresh p.ledger) log ∧
      Resolves r a (request.fresh p.ledger) p'.markup res ∧
      p'.ledger = p.ledger ++ (request.fresh p.ledger).entries ∧ p'.markup = Table.putAll res.vectors p.markup ∧
      ∀ earlier, r.Batches earlier p → p'.markup = earlier.flatMap Resources.vectors ++ res.vectors := by
  obtain ⟨a, res, rfl, hto, hresolves, hledger, hmarkup⟩ := exists_resolves hdraw h
  refine ⟨a, res, rfl, hto, hresolves, hledger, hmarkup, fun earlier hearlier => ?_⟩
  simpa using (markup_of_batches hdraw (.snoc hearlier h)).1

end Resolver

def sharingAnswer : (q : Question) → q.Answer
  | .canvas => { attrs := { id := "0:0", name := "Page", kind := .canvas } }
  | .descriptions _ => []
  | .exports e =>
    if e.format ≠ .svg then [("1", none), ("3", some "mask")]
    else if e.absoluteBounds then [("1", some "shared"), ("2", none)]
    else [("1", some "other"), ("2", some "shared")]
  | .fills => [("fill", "shared")]
  | .fetch url => { bytes := Bytes.ofString s!"<svg id='{url}'/>", contentType := some "image/svg+xml" }

def singleResolver : Resolver where
  options := {}
  rasterize m _ := if m = "<svg preserveAspectRatio=\"none\" id='shared'/>" then .ok [137] else .error .parse

def sharingRequest : Request := ⟨["1", "2", "9", "1"], ["fill", "lost"], ["1", "3", "9"]⟩

def sharedImage : Image where
  sourceUrl := "shared"
  url := "shared"
  bytes := Bytes.ofString "<svg id='shared'/>"
  contentType := "image/svg+xml"

def sharedResources : Resources where
  vectors :=
    [("1", "<svg preserveAspectRatio=\"none\" id='shared'/>"), ("2", "<svg preserveAspectRatio=\"none\" id='shared'/>")]
  vectorUrls := [("1", "shared"), ("2", "shared")]
  images := [("fill", sharedImage)]
  masks := [("1", "data:image/png;base64,iQ=="), ("3", "mask")]

theorem run_sharingRequest :
    ((singleResolver.resolve sharingRequest {}).run fun q => .ok (sharingAnswer q)).2.1 = .ok sharedResources := by
  decide +kernel

theorem resolves_sharingRequest :
    ∃ log p', (singleResolver.resolve sharingRequest {}).Answered log (.ok sharedResources, p') ∧
      ∃ a : Answers, a.To singleResolver.options (sharingRequest.fresh []) log ∧
        Resolves singleResolver a (sharingRequest.fresh []) p'.markup sharedResources := by
  have hdraw : ∀ m, singleResolver.rasterize m singleResolver.options.imageScale ≠ .error .closedTwice := by
    intro m
    rw [singleResolver]
    dsimp only
    split <;> exact nofun
  obtain ⟨log, h⟩ := exists_answered sharingAnswer (singleResolver.resolve sharingRequest {})
  have hrun := run_sharingRequest
  rcases hresult : ((singleResolver.resolve sharingRequest {}).run fun q => .ok (sharingAnswer q)).2 with ⟨result, p'⟩
  rw [hresult] at h hrun
  obtain rfl : result = .ok sharedResources := hrun
  obtain ⟨a, _, heq, hto, hresolves, -⟩ := Resolver.resolve_answered hdraw h
  obtain rfl := Except.ok.inj heq
  exact ⟨log, p', h, a, hto, hresolves⟩

end DesignCompiler.Assets

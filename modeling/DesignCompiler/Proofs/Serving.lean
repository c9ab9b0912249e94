import Mathlib.Data.List.Sigma
import DesignCompiler.Proofs.Requests
import DesignCompiler.Proofs.Tables

namespace DesignCompiler

open Conversation

namespace Assets

namespace Reference

variable {o : Options}

theorem resolve_file (h : o.imageMode = .file) (key : String) (remoteUrl : Option String) (bytes : Bytes)
    (contentType : String) :
    resolve o key remoteUrl bytes contentType =
      .file (o.imageUrlPrefix ++ fileName key contentType)
        ⟨fileName key contentType, bytes, contentType⟩ := by
  rw [resolve.eq_def, h]

theorem isAlphanum_of_mem_fileStem {key : String} {c : Char} (h : c ∈ (fileStem key).toList) :
    c.isAlphanum ∨ c = '-' := by
  rw [fileStem, String.toList_ofList, List.mem_map] at h
  obtain ⟨d, -, rfl⟩ := h
  split
  · next hd => exact .inl hd
  · exact .inr rfl

theorem notMem_fileStem (key : String) : '.' ∉ (fileStem key).toList :=
  fun h => absurd (isAlphanum_of_mem_fileStem h) (by decide)

theorem notMem_extension (contentType : String) : '.' ∉ (extension contentType).toList := by
  rw [extension]
  split_ifs <;> decide

/-- A file name tells the stem and the extension, but neither the key nor the kind. -/
theorem fileName_inj {key key' type type' : String} :
    fileName key type = fileName key' type' ↔
      fileStem key = fileStem key' ∧ extension type = extension type' := by
  have hdot : ".".toList = ['.'] := rfl
  simp only [fileName, ← String.toList_inj, String.toList_append, List.append_assoc, hdot,
    List.singleton_append]
  rw [List.append_cons_inj_of_notMem (notMem_fileStem key) (notMem_extension type)]
  simp

end Reference

structure Asset where
  key : String
  contentType : String
  bytes : Bytes
  url : String

namespace Asset

variable {o : Options} {a b : Asset}

def fileName (a : Asset) : String := Reference.fileName a.key a.contentType

def emitted (a : Asset) : Emitted := ⟨a.fileName, a.bytes, a.contentType⟩

def Served (o : Options) (store : Store) (a : Asset) : Prop :=
  ∃ name, a.url = o.imageUrlPrefix ++ name ∧ store.lookup name = some a.bytes

def ofFile (o : Options) (key contentType : String) (bytes : Bytes) : Asset :=
  ⟨key, contentType, bytes, o.imageUrlPrefix ++ Reference.fileName key contentType⟩

theorem served_iff {store : Store} (h : a.url = o.imageUrlPrefix ++ a.fileName) :
    a.Served o store ↔ store.lookup a.fileName = some a.bytes := by
  constructor
  · rintro ⟨name, hname, hstore⟩
    rw [h, String.append_right_inj] at hname
    rwa [hname]
  · intro hstore
    exact ⟨_, h, hstore⟩

/-- Each file holds the bytes of the last asset of its name. -/
theorem exists_lookup_persist {assets : List Asset} (h : a ∈ assets) :
    ∃ b ∈ assets, b.fileName = a.fileName ∧
      (Store.persist (assets.map emitted) []).lookup a.fileName = some b.bytes := by
  have hlookup : (Store.persist (assets.map emitted) []).lookup a.fileName =
      (assets.map fun b => (b.fileName, b.bytes)).reverse.lookup a.fileName := by
    rw [Store.persist, Table.lookup_putAll, List.map_map, List.lookup_nil, Option.or_none]
    rfl
  rw [hlookup]
  cases hfile : (assets.map fun b => (b.fileName, b.bytes)).reverse.lookup a.fileName with
  | none =>
      refine absurd ?_ (Table.lookup_eq_none.1 hfile)
      rw [Table.keys, List.map_reverse, List.mem_reverse, List.map_map]
      exact List.mem_map_of_mem h
  | some bytes =>
      have hmem := List.mem_reverse.1 (Table.mem_of_lookup hfile)
      obtain ⟨b, hb, heq⟩ := List.mem_map.1 hmem
      obtain ⟨hname, rfl⟩ := Prod.mk.inj heq
      exact ⟨b, hb, hname, rfl⟩

theorem forall_served_iff {assets : List Asset}
    (hurl : ∀ a ∈ assets, a.url = o.imageUrlPrefix ++ a.fileName) :
    (∀ a ∈ assets, a.Served o (Store.persist (assets.map emitted) [])) ↔
      ∀ a ∈ assets, ∀ b ∈ assets, a.url = b.url → a.bytes = b.bytes := by
  constructor
  · intro h a ha b hb hab
    have hname : a.fileName = b.fileName := by
      rwa [hurl a ha, hurl b hb, String.append_right_inj] at hab
    have hstore := (served_iff (hurl a ha)).1 (h a ha)
    rw [hname, (served_iff (hurl b hb)).1 (h b hb)] at hstore
    exact (Option.some.inj hstore).symm
  · intro h a ha
    obtain ⟨b, hb, hname, hstore⟩ := exists_lookup_persist ha
    rw [served_iff (hurl a ha), hstore, h a ha b hb (by rw [hurl a ha, hurl b hb, hname])]

end Asset

/-- An export that was asked for last, and the replies after it. -/
structure ExportedLast (log : List Reply) (exports : Table (Option String)) (bodies : List Reply) : Prop where
  exists_eq : ∃ before request, log = before ++ ⟨.exports request, .ok exports⟩ :: bodies
  fetches : ∀ q ∈ asked bodies, ∃ url, q = .fetch url

theorem ExportedLast.unique {log bodies bodies' : List Reply} {exports exports' : Table (Option String)}
    (h : ExportedLast log exports bodies) (h' : ExportedLast log exports' bodies') :
    exports = exports' ∧ bodies = bodies' := by
  have not_asked {bodies : List Reply} (hfetches : ∀ q ∈ asked bodies, ∃ url, q = .fetch url)
      {e : ExportRequest} {reply : Except FetchError (Table (Option String))} :
      (⟨.exports e, reply⟩ : Reply) ∉ bodies := by
    intro hmem
    obtain ⟨url, hurl⟩ := hfetches _ (List.mem_map_of_mem hmem)
    cases hurl
  obtain ⟨before, request, rfl⟩ := h.exists_eq
  obtain ⟨before', request', heq⟩ := h'.exists_eq
  rcases List.append_eq_append_iff.1 heq with ⟨_ | ⟨_, c⟩, -, hc⟩ | ⟨_ | ⟨_, c⟩, -, hc⟩
  · cases hc
    exact ⟨rfl, rfl⟩
  · cases hc
    exact absurd (List.mem_append_right _ List.mem_cons_self) (not_asked h.fetches)
  · cases hc
    exact ⟨rfl, rfl⟩
  · cases hc
    exact absurd (List.mem_append_right _ List.mem_cons_self) (not_asked h'.fetches)

/-- The type and the bytes of a mask: of its export, which a batch asks for last, or as drawn from its
markup where there is no export. -/
inductive MaskBytes (r : Resolver) (log : List Reply) (markup : Table String) (id : String) :
    String → Bytes → Prop
  | exported {exports : Table (Option String)} {bodies : List Reply} {url : String} {body : Resource}
      (hlast : ExportedLast log exports bodies) (hurl : exportUrl? exports id = some url)
      (hbody : ⟨.fetch url, .ok body⟩ ∈ bodies) :
      MaskBytes r log markup id (Picture.contentType body.bytes body.contentType) body.bytes
  | drawn {exports : Table (Option String)} {bodies : List Reply} {m : String} {png : Bytes}
      (hlast : ExportedLast log exports bodies) (hurl : exportUrl? exports id = none)
      (hmarkup : markup.lookup id = some m) (hpng : r.rasterize m r.options.imageScale = .ok png) :
      MaskBytes r log markup id "image/png" png

theorem lookup_withUrls (url? : String → Option String) {keys : List String} {key : String}
    (h : key ∈ keys) : (withUrls url? keys).lookup key = url? key :=
  Table.lookup_tabulate url? h

theorem hears_fetchMasks {o : Options} {ids : List String} {log : List Reply} {exported : Table Fetched}
    (h : (fetchMasks o ids).run.Hears log (.ok exported)) (hids : ids ≠ []) :
    ∃ exports bodies, ExportedLast log exports bodies ∧ (asked bodies).Nodup ∧
      (∀ id ∈ ids, (exported.lookup id).map Fetched.url = exportUrl? exports id) ∧
      ∀ e ∈ exported, (⟨.fetch e.2.url, .ok e.2.body⟩ : Reply) ∈ bodies := by
  unfold fetchMasks at h
  split at h
  · next hempty => exact absurd (List.isEmpty_iff.1 hempty) hids
  rcases hears_ask_bind h with ⟨e, -, ⟨⟩⟩ | ⟨bodies, exports, rfl, hbodies⟩
  obtain ⟨hasked, hfetched⟩ := hears_fetchEach hbodies
  obtain ⟨hurls, hmem⟩ := hfetched exported rfl
  refine ⟨exports, bodies, ⟨⟨[], _, rfl⟩, ?_⟩, ?_, ?_, hmem⟩
  · intro q hq
    rw [hasked] at hq
    obtain ⟨url, -, rfl⟩ := List.mem_map.1 hq
    exact ⟨url, rfl⟩
  · rw [hasked]
    exact (nodup_eraseDups _).map fun _ _ h => by cases h; rfl
  · intro id hid
    rw [← Table.lookup_map, hurls, lookup_withUrls _ hid]

namespace Resolver

variable {r : Resolver}

def maskContent? (r : Resolver) (exported : Table Fetched) (markup : Table String) (id : String) :
    Option (String × Bytes) :=
  match exported.lookup id, markup.lookup id with
  | some f, _ => some (f.contentType, f.body.bytes)
  | none, none => none
  | none, some m => (r.rasterize m r.options.imageScale).toOption.map ("image/png", ·)

theorem maskReference_eq_ok (hmode : r.options.imageMode = .file) {exported : Table Fetched}
    {markup : Table String} {id : String} {reference : Option Reference}
    (h : r.maskReference? exported markup id = .ok reference) :
    reference = (r.maskContent? exported markup id).map
      fun c => Reference.resolve r.options id none c.2 c.1 := by
  unfold maskReference? at h
  unfold maskContent?
  cases hexported : exported.lookup id with
  | some f =>
      rw [hexported] at h
      cases h
      simp only [Fetched.reference, Reference.resolve_file hmode, Option.map_some]
  | none =>
      rw [hexported] at h
      cases hmarkup : markup.lookup id with
      | none =>
          rw [hmarkup] at h
          cases h
          rfl
      | some m =>
          rw [hmarkup] at h
          dsimp only at h ⊢
          cases hpng : r.rasterize m r.options.imageScale with
          | ok png =>
              rw [hpng] at h
              cases h
              rfl
          | error e =>
              rw [hpng] at h
              cases e <;> cases h <;> rfl

theorem maskBytes_iff {ids : List String} {before log : List Reply} {exported : Table Fetched}
    (h : (fetchMasks r.options ids).run.Hears log (.ok exported)) {id : String} (hid : id ∈ ids)
    {markup : Table String} {type : String} {bytes : Bytes} :
    MaskBytes r (before ++ log) markup id type bytes ↔
      r.maskContent? exported markup id = some (type, bytes) := by
  obtain ⟨exports, bodies, hlast, hnodup, hurls, hmem⟩ := hears_fetchMasks h (List.ne_nil_of_mem hid)
  have hlast' : ExportedLast (before ++ log) exports bodies := by
    obtain ⟨before', request, rfl⟩ := hlast.exists_eq
    exact ⟨⟨before ++ before', request, by rw [List.append_assoc]⟩, hlast.fetches⟩
  have hurl := hurls id hid
  unfold maskContent?
  constructor
  · rintro (⟨hlast'', hurl', hbody⟩ | ⟨hlast'', hurl', hmarkup, hpng⟩)
    · obtain ⟨rfl, rfl⟩ := hlast'.unique hlast''
      rw [hurl'] at hurl
      obtain ⟨f, hf, rfl⟩ := Option.map_eq_some_iff.1 hurl
      have hbody' := hmem _ (Table.mem_of_lookup hf)
      obtain heq := List.NodupKeys.eq_of_mk_mem hnodup hbody hbody'
      cases heq
      rw [hf]
      rfl
    · obtain ⟨rfl, rfl⟩ := hlast'.unique hlast''
      rw [hurl', Option.map_eq_none_iff] at hurl
      rw [hurl, hmarkup]
      dsimp only
      rw [hpng]
      rfl
  · intro hcontent
    split at hcontent
    · next f _ hf =>
      rw [hf] at hurl
      cases hcontent
      exact .exported hlast' hurl.symm (hmem _ (Table.mem_of_lookup hf))
    · cases hcontent
    · next m hf hm =>
      rw [hf] at hurl
      cases hpng : r.rasterize m r.options.imageScale with
      | error e =>
          rw [hpng] at hcontent
          cases hcontent
      | ok png =>
          rw [hpng] at hcontent
          cases hcontent
          exact .drawn hlast' hurl.symm hm hpng

def assets (r : Resolver) (vectors images exported : Table Fetched) (markup : Table String)
    (maskIds : List String) : List Asset :=
  (vectors.map fun e => .ofFile r.options e.1 "image/svg+xml" (Bytes.ofString e.2.markup)) ++
    (images.map fun e => .ofFile r.options e.1 e.2.contentType e.2.body.bytes) ++
    maskIds.filterMap fun id => (r.maskContent? exported markup id).map fun c => .ofFile r.options id c.1 c.2

theorem masks_eq (hmode : r.options.imageMode = .file) {exported : Table Fetched} {markup : Table String}
    {ids : List String} {references : List (Option Reference)}
    (h : ids.mapM (r.maskReference? exported markup) = .ok references) :
    ((ids.zip references).filterMap fun (id, reference) => reference.map (id, ·)) =
      ids.filterMap fun id => (r.maskContent? exported markup id).map
        fun c => (id, Reference.resolve r.options id none c.2 c.1) := by
  induction ids generalizing references with
  | nil =>
      cases h
      rfl
  | cons id ids ih =>
      rw [List.mapM_cons] at h
      cases hfirst : r.maskReference? exported markup id with
      | error e =>
          rw [hfirst] at h
          cases h
      | ok reference =>
          rw [hfirst] at h
          cases hrest : ids.mapM (r.maskReference? exported markup) with
          | error e =>
              rw [hrest] at h
              cases h
          | ok rest =>
              rw [hrest] at h
              cases h
              rw [List.zip_cons_cons, List.filterMap_cons, List.filterMap_cons, ih hrest,
                maskReference_eq_ok hmode hfirst]
              cases r.maskContent? exported markup id <;> rfl

theorem emitted_resources (hmode : r.options.imageMode = .file) {vectors images exported : Table Fetched}
    {markup : Table String} {ids : List String} {references : List (Option Reference)}
    (h : ids.mapM (r.maskReference? exported markup) = .ok references) :
    (r.resources vectors images
      ((ids.zip references).filterMap fun (id, reference) => reference.map (id, ·))).emitted =
      (r.assets vectors images exported markup ids).map Asset.emitted := by
  rw [masks_eq hmode h]
  simp only [resources, assets, Table.values, List.filterMap_append, List.map_append, List.map_map,
    List.filterMap_map, List.map_filterMap, List.filterMap_filterMap, Function.comp_def,
    Fetched.vectorReference, Fetched.reference, Reference.resolve_file hmode, Reference.emitted?,
    List.filterMap_eq_map', Option.map_map]
  congr 1
  refine List.filterMap_congr fun id _ => ?_
  cases r.maskContent? exported markup id <;> rfl

end Resolver

/-- An asset of a batch. The bytes of a mask are not part of the resources, but were replied or drawn. -/
inductive IsAsset (r : Resolver) (log : List Reply) (markup : Table String) (res : Resources) : Asset → Prop
  | vector {id m url : String} (hm : (id, m) ∈ res.vectors) (hurl : (id, url) ∈ res.vectorUrls) :
      IsAsset r log markup res ⟨id, "image/svg+xml", Bytes.ofString m, url⟩
  | image {ref : String} {image : Image} (h : (ref, image) ∈ res.images) :
      IsAsset r log markup res ⟨ref, image.contentType, image.bytes, image.url⟩
  | mask {id type url : String} {bytes : Bytes} (hurl : (id, url) ∈ res.masks)
      (hbytes : MaskBytes r log markup id type bytes) : IsAsset r log markup res ⟨id, type, bytes, url⟩

/-- How the files that a batch writes into an empty directory serve its assets. -/
structure Serves (r : Resolver) (log : List Reply) (markup : Table String) (res : Resources) : Prop where
  vectorUrls : res.vectorUrls.keys = res.vectors.keys
  maskBytes : ∀ id ∈ res.masks.keys, ∃ type bytes, MaskBytes r log markup id type bytes
  url_eq_iff : ∀ a b, IsAsset r log markup res a → IsAsset r log markup res b →
    (a.url = b.url ↔ Reference.fileStem a.key = Reference.fileStem b.key ∧
      Reference.extension a.contentType = Reference.extension b.contentType)
  stored : ∀ a, IsAsset r log markup res a → ∃ b, IsAsset r log markup res b ∧ b.url = a.url ∧
    b.Served r.options (Store.persist res.emitted [])
  served_iff : (∀ a, IsAsset r log markup res a → a.Served r.options (Store.persist res.emitted [])) ↔
    ∀ a b, IsAsset r log markup res a → IsAsset r log markup res b → a.url = b.url → a.bytes = b.bytes

section Batch

variable {r : Resolver} {vectors images exported : Table Fetched} {markup : Table String}
  {ids : List String} {references : List (Option Reference)} {before log : List Reply}

theorem mem_vectors {masks : Table Reference} {id m : String} :
    (id, m) ∈ (r.resources vectors images masks).vectors ↔ ∃ f, (id, f) ∈ vectors ∧ f.markup = m := by
  simp [Resolver.resources]

theorem mem_vectorUrls (hmode : r.options.imageMode = .file) {masks : Table Reference} {id url : String} :
    (id, url) ∈ (r.resources vectors images masks).vectorUrls ↔
      ∃ f, (id, f) ∈ vectors ∧ r.options.imageUrlPrefix ++ Reference.fileName id "image/svg+xml" = url := by
  simp [Resolver.resources, Fetched.vectorReference, Reference.resolve_file hmode, Reference.url]

theorem mem_images {masks : Table Reference} {ref : String} {image : Image} :
    (ref, image) ∈ (r.resources vectors images masks).images ↔
      ∃ f, (ref, f) ∈ images ∧ f.image r.options ref = image := by
  simp [Resolver.resources]

theorem mem_masks (hmode : r.options.imageMode = .file)
    (hreferences : ids.mapM (r.maskReference? exported markup) = .ok references) {id url : String} :
    (id, url) ∈ (r.resources vectors images
      ((ids.zip references).filterMap fun (id, reference) => reference.map (id, ·))).masks ↔
      id ∈ ids ∧ ∃ c, r.maskContent? exported markup id = some c ∧
        r.options.imageUrlPrefix ++ Reference.fileName id c.1 = url := by
  rw [r.masks_eq hmode hreferences]
  simp only [Resolver.resources, List.map_filterMap, List.mem_filterMap, Option.map_map,
    Option.map_eq_some_iff, Function.comp_apply, Reference.resolve_file hmode, Reference.url]
  constructor
  · rintro ⟨_, hid, c, hc, heq⟩
    cases heq
    exact ⟨hid, c, hc, rfl⟩
  · rintro ⟨hid, c, hc, rfl⟩
    exact ⟨id, hid, c, hc, rfl⟩

theorem isAsset_iff (hmode : r.options.imageMode = .file)
    (hmasks : (fetchMasks r.options ids).run.Hears log (.ok exported))
    (hreferences : ids.mapM (r.maskReference? exported markup) = .ok references) {a : Asset} :
    IsAsset r (before ++ log) markup (r.resources vectors images
      ((ids.zip references).filterMap fun (id, reference) => reference.map (id, ·))) a ↔
      a ∈ r.assets vectors images exported markup ids := by
  rw [Resolver.assets, List.mem_append, List.mem_append]
  have himage (ref : String) (f : Fetched) : Asset.mk ref (f.image r.options ref).contentType
      (f.image r.options ref).bytes (f.image r.options ref).url =
        .ofFile r.options ref f.contentType f.body.bytes := by
    simp [Fetched.image, Fetched.reference, Reference.resolve_file hmode, Reference.url, Asset.ofFile]
  constructor
  · rintro (⟨hm, hurl⟩ | ⟨h⟩ | ⟨hurl, hbytes⟩)
    · obtain ⟨f, hf, rfl⟩ := mem_vectors.1 hm
      obtain ⟨-, -, rfl⟩ := (mem_vectorUrls hmode).1 hurl
      exact .inl (.inl (List.mem_map.2 ⟨_, hf, rfl⟩))
    · obtain ⟨f, hf, rfl⟩ := mem_images.1 h
      exact .inl (.inr (List.mem_map.2 ⟨_, hf, (himage _ f).symm⟩))
    · obtain ⟨hid, c, hc, rfl⟩ := (mem_masks hmode hreferences).1 hurl
      rw [Resolver.maskBytes_iff hmasks hid, hc] at hbytes
      cases hbytes
      exact .inr (List.mem_filterMap.2 ⟨_, hid, by rw [hc]; rfl⟩)
  · rintro ((h | h) | h)
    · obtain ⟨⟨id, f⟩, hf, rfl⟩ := List.mem_map.1 h
      exact .vector (mem_vectors.2 ⟨f, hf, rfl⟩) ((mem_vectorUrls hmode).2 ⟨f, hf, rfl⟩)
    · obtain ⟨⟨ref, f⟩, hf, rfl⟩ := List.mem_map.1 h
      rw [← himage]
      exact .image (mem_images.2 ⟨f, hf, rfl⟩)
    · obtain ⟨id, hid, h⟩ := List.mem_filterMap.1 h
      obtain ⟨⟨type, bytes⟩, hc, rfl⟩ := Option.map_eq_some_iff.1 h
      exact .mask ((mem_masks hmode hreferences).2 ⟨hid, _, hc, rfl⟩)
        ((Resolver.maskBytes_iff hmasks hid).2 hc)

theorem url_of_mem_assets {a : Asset} (h : a ∈ r.assets vectors images exported markup ids) :
    a.url = r.options.imageUrlPrefix ++ a.fileName := by
  rw [Resolver.assets, List.mem_append, List.mem_append] at h
  rcases h with (h | h) | h
  · obtain ⟨_, -, rfl⟩ := List.mem_map.1 h
    rfl
  · obtain ⟨_, -, rfl⟩ := List.mem_map.1 h
    rfl
  · obtain ⟨_, -, h⟩ := List.mem_filterMap.1 h
    obtain ⟨_, -, rfl⟩ := Option.map_eq_some_iff.1 h
    rfl

theorem vectorUrls_keys (r : Resolver) (vectors images : Table Fetched) (masks : Table Reference) :
    (r.resources vectors images masks).vectorUrls.keys = (r.resources vectors images masks).vectors.keys := by
  simp only [Resolver.resources, Table.keys, List.map_map]
  rfl

theorem serves_of_assets {res : Resources} {assets : List Asset}
    (hassets : ∀ a, IsAsset r log markup res a ↔ a ∈ assets)
    (hurl : ∀ a ∈ assets, a.url = r.options.imageUrlPrefix ++ a.fileName)
    (hemitted : res.emitted = assets.map Asset.emitted) (hkeys : res.vectorUrls.keys = res.vectors.keys)
    (hbytes : ∀ id ∈ res.masks.keys, ∃ type bytes, MaskBytes r log markup id type bytes) :
    Serves r log markup res := by
  refine ⟨hkeys, hbytes, ?_, ?_, ?_⟩
  · intro a b ha hb
    rw [hurl a ((hassets a).1 ha), hurl b ((hassets b).1 hb), ← Reference.fileName_inj,
      String.append_right_inj]
    rfl
  · intro a ha
    obtain ⟨b, hb, hname, hstore⟩ := Asset.exists_lookup_persist ((hassets a).1 ha)
    refine ⟨b, (hassets b).2 hb, ?_, ?_⟩
    · rw [hurl b hb, hurl a ((hassets a).1 ha), hname]
    · rw [Asset.served_iff (hurl b hb), hname, hemitted, hstore]
  · simp only [hassets, hemitted]
    rw [Asset.forall_served_iff hurl]
    exact ⟨fun h a b ha hb => h a ha b hb, fun h a ha b hb => h a b ha hb⟩

end Batch

/-- A batch in file mode stores a file for each of its assets, but an asset is sure to find its own bytes
in it only if no other asset with the same URL has other bytes. -/
theorem serves_of_resolve {r : Resolver} (hmode : r.options.imageMode = .file) {request : Request}
    {p p' : Progress} {log : List Reply} {res : Resources}
    (h : (r.resolve request p).Hears log (.ok res, p')) : Serves r log p'.markup res := by
  cases r.outcome_of_hears h with
  | masksEnd _ _ hmasks hresult =>
      obtain ⟨exported, references, rfl, hreferences, rfl⟩ := hresult res rfl
      refine serves_of_assets (fun a => isAsset_iff hmode hmasks hreferences)
        (fun _ h => url_of_mem_assets h) (r.emitted_resources hmode hreferences) (vectorUrls_keys ..) ?_
      intro id hid
      obtain ⟨⟨_, url⟩, hmem, rfl⟩ := List.mem_map.1 hid
      obtain ⟨hid, ⟨type, bytes⟩, hc, -⟩ := (mem_masks hmode hreferences).1 hmem
      exact ⟨type, bytes, (Resolver.maskBytes_iff hmasks hid).2 hc⟩

def twoFaced : Source
  | .canvas => .ok { attrs := { id := "0:0", name := "Page", kind := .canvas } }
  | .descriptions _ => .ok []
  | .exports e => .ok (e.ids.map fun id => (id, some (if e.scale = 2 then "mask" else "vector")))
  | .fills => .ok []
  | .fetch url => .ok { bytes := Bytes.ofString s!"<svg id='{url}'/>", contentType := some "image/svg+xml" }

def scaledResolver : Resolver where
  options := { imageMode := .file, imageFormat := .svg, imageScale := 2 }
  rasterize := Picture.rasterize

def bothKinds : Request where
  vectors := ["1:2"]
  masks := ["1:2"]

def twoFacedResources : Resources where
  vectors := [("1:2", "<svg preserveAspectRatio=\"none\" id='vector'/>")]
  vectorUrls := [("1:2", "/images/1-2.svg")]
  masks := [("1:2", "/images/1-2.svg")]
  emitted :=
    [⟨"1-2.svg", Bytes.ofString "<svg preserveAspectRatio=\"none\" id='vector'/>", "image/svg+xml"⟩,
      ⟨"1-2.svg", Bytes.ofString "<svg id='mask'/>", "image/svg+xml"⟩]

theorem run_bothKinds :
    ((scaledResolver.resolve bothKinds {}).run twoFaced).2.1 = .ok twoFacedResources := by
  decide +kernel

theorem exists_hears_bothKinds :
    ∃ log p', (scaledResolver.resolve bothKinds {}).Hears log (.ok twoFacedResources, p') := by
  obtain ⟨log, -, h⟩ := exists_hears_run twoFaced (scaledResolver.resolve bothKinds {})
  rw [← run_bothKinds]
  exact ⟨log, _, h⟩

theorem serves_bothKinds :
    ∃ log p', (scaledResolver.resolve bothKinds {}).Hears log (.ok twoFacedResources, p') ∧
      Serves scaledResolver log p'.markup twoFacedResources := by
  obtain ⟨log, p', h⟩ := exists_hears_bothKinds
  exact ⟨log, p', h, serves_of_resolve rfl h⟩

/-- The file of the mask replaces that of the vector. -/
theorem not_forall_served :
    ¬ ∀ (r : Resolver) (request : Request) (log : List Reply) (res : Resources) (p' : Progress),
      r.options.imageMode = .file → (r.resolve request {}).Hears log (.ok res, p') →
        ∀ a, IsAsset r log p'.markup res a → a.Served r.options (Store.persist res.emitted []) := by
  intro h
  obtain ⟨log, p', hears⟩ := exists_hears_bothKinds
  have hvector := h _ _ _ _ _ rfl hears _ (.vector List.mem_cons_self List.mem_cons_self)
  have hstore := (Asset.served_iff (by decide)).1 hvector
  revert hstore
  decide +kernel

end Assets

end DesignCompiler

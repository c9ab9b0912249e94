import DesignCompiler.Proofs.Paths
import DesignCompiler.Proofs.Serving
import DesignCompiler.Proofs.Strictness
import DesignCompiler.Proofs.Writes

namespace DesignCompiler

theorem FileTable.endsIn_key_join (dir : String) {name : String} (h : Files.IsPlain name) :
    Files.EndsIn name (key (Files.join dir name)) :=
  (Files.EndsIn.join dir h.1).key h.1 h.2

section Names

variable {o : Options} {stem : String}

theorem endsIn_key_tsx (dir : String) (h : '/' ∉ stem.toList) :
    Files.EndsIn (stem ++ ".tsx") (FileTable.key (Files.join dir (stem ++ ".tsx"))) :=
  FileTable.endsIn_key_join dir (Files.isPlain_tsx h)

theorem slash_notMem_of_isStemChar (h : ∀ c ∈ stem.toList, isStemChar c) : '/' ∉ stem.toList :=
  fun hslash => absurd (h '/' hslash) (by decide)

/-- No component has a source with this path, whatever its name. -/
def Options.Spares (o : Options) (path : String) : Prop :=
  ∀ name, FileTable.key (Files.join o.outDir (fileStem name ++ o.fileSuffix ++ ".tsx")) ≠
    FileTable.key path

/-- A suffix with a character that no stem has spares all shells, unless it has parts. -/
theorem Options.spares_of_suffix (hchar : ∃ c ∈ o.fileSuffix.toList, isStemChar c = false)
    (hslash : '/' ∉ o.fileSuffix.toList) (hstem : ∀ c ∈ stem.toList, isStemChar c) :
    o.Spares (Files.join o.outDir (stem ++ ".tsx")) := by
  obtain ⟨c, hc, hnot⟩ := hchar
  intro name h
  have hsource : '/' ∉ (fileStem name ++ o.fileSuffix).toList := by
    rw [String.toList_append, List.mem_append]
    exact not_or.2 ⟨slash_notMem_of_isStemChar fun _ => isStemChar_of_mem, hslash⟩
  have hname := endsIn_key_tsx o.outDir hsource
  rw [h] at hname
  have heq := hname.unique (endsIn_key_tsx o.outDir (slash_notMem_of_isStemChar hstem))
  rw [← String.toList_inj, String.toList_append, String.toList_append (s := stem),
    List.append_cancel_right_eq, String.toList_append] at heq
  have hmem : c ∈ stem.toList := heq ▸ List.mem_append_right _ hc
  rw [hstem c hmem] at hnot
  cases hnot

theorem Assets.Reference.isPlain_fileName (key contentType : String) :
    Files.IsPlain (fileName key contentType) := by
  have hdot : ".".toList = ['.'] := rfl
  have hstem : '/' ∉ (fileStem key).toList := fun h => absurd (isAlphanum_of_mem_fileStem h) (by decide)
  have hextension : '/' ∉ (extension contentType).toList ∧ 2 < (extension contentType).toList.length := by
    rw [extension]
    split_ifs <;> decide
  refine Files.isPlain_of_length ?_ ?_
  · simp [fileName, hdot, hstem, hextension.1]
  · simp only [fileName, String.toList_append, List.length_append]
    omega

theorem Assets.Reference.key_fileName_ne (key contentType dir dir' : String)
    (hstem : ∀ c ∈ stem.toList, isStemChar c) :
    FileTable.key (Files.join dir (fileName key contentType)) ≠
      FileTable.key (Files.join dir' (stem ++ ".tsx")) := by
  have hdot : ".".toList = ['.'] := rfl
  have htsx : ".tsx".toList = '.' :: "tsx".toList := rfl
  have hne : extension contentType ≠ "tsx" := by
    rw [extension]
    split_ifs <;> decide
  intro h
  have hname := FileTable.endsIn_key_join dir (isPlain_fileName key contentType)
  rw [h] at hname
  have heq := hname.unique (endsIn_key_tsx dir' (slash_notMem_of_isStemChar hstem))
  rw [← String.toList_inj, fileName, String.toList_append, String.toList_append, String.toList_append,
    hdot, htsx, List.append_assoc, List.singleton_append,
    List.append_cons_inj_of_notMem (notMem_fileStem key) (notMem_extension contentType)] at heq
  exact hne (String.toList_inj.1 heq.2.2)

end Names

theorem Compiler.exists_source_of_overwrite {c : Compiler} {canvas : SceneNode} {out : Compilation}
    (h : (c.compileCanvas canvas).run.CanEnd (.ok out)) {f : Output.GeneratedFile} (hf : f ∈ out.files)
    (hoverwrite : f.overwrite) :
    ∃ d : Component, d.IsNamed c.options.instanceSuffix d.name ∧ f.path = d.sourcePath c.options ∧
      f.content = (Output.ComponentText.ofComponent d).source c.options := by
  obtain ⟨hnamed, hfiles⟩ := c.named_of_compileCanvas h
  rw [hfiles] at hf
  obtain ⟨d, hd, hf⟩ := List.mem_flatMap.1 hf
  rcases List.mem_pair.1 hf with rfl | rfl
  · exact ⟨d, hnamed d hd, rfl, rfl⟩
  · cases hoverwrite

theorem Options.Spares.key_ne {c : Compiler} {canvas : SceneNode} {out : Compilation} {path : String}
    (hspares : c.options.Spares path) (h : (c.compileCanvas canvas).run.CanEnd (.ok out)) :
    ∀ f ∈ out.files, f.overwrite → FileTable.key f.path ≠ FileTable.key path := by
  intro f hf hoverwrite
  obtain ⟨d, hnamed, hpath, -⟩ := c.exists_source_of_overwrite h hf hoverwrite
  have hsource := hspares d.name
  rw [← hnamed.file_eq] at hsource
  rwa [hpath]

theorem eq_ok_of_mem_zip {α β ε : Type} {f : α → Except ε β} {l : List α} {bs : List β}
    (h : l.mapM f = .ok bs) {a : α} {b : β} (hmem : (a, b) ∈ l.zip bs) : f a = .ok b := by
  induction l generalizing bs with
  | nil => cases hmem
  | cons first l ih =>
      rw [List.mapM_cons] at h
      cases hfirst : f first with
      | error e =>
          rw [hfirst] at h
          cases h
      | ok c =>
          rw [hfirst] at h
          cases hrest : l.mapM f with
          | error e =>
              rw [hrest] at h
              cases h
          | ok cs =>
              rw [hrest] at h
              cases h
              rcases List.mem_cons.1 hmem with heq | hmem
              · cases heq
                exact hfirst
              · exact ih hrest hmem

namespace Assets

theorem Reference.fileName_of_emitted? {o : Options} {key contentType : String} {remoteUrl : Option String}
    {bytes : Bytes} {asset : Emitted}
    (h : (resolve o key remoteUrl bytes contentType).emitted? = some asset) :
    asset.fileName = fileName key contentType := by
  unfold resolve at h
  split at h <;> cases h
  rfl

theorem Resolver.exists_resolve_of_maskReference? {r : Resolver} {exported : Table Fetched}
    {markup : Table String} {id : String} {reference : Reference}
    (h : r.maskReference? exported markup id = .ok (some reference)) :
    ∃ remoteUrl bytes contentType, reference = .resolve r.options id remoteUrl bytes contentType := by
  unfold maskReference? at h
  split at h
  · cases h
    exact ⟨_, _, _, rfl⟩
  · cases h
  · split at h <;> cases h
    exact ⟨_, _, _, rfl⟩

theorem Resolver.exists_fileName_of_resolve {r : Resolver} {request : Request} {progress p : Progress}
    {res : Resources} (h : (r.resolve request progress).CanEnd (.ok res, p)) :
    ∀ asset ∈ res.emitted, ∃ key contentType, asset.fileName = Reference.fileName key contentType := by
  obtain ⟨e | ⟨vectors, images⟩, -, h⟩ := Conversation.CanEnd.of_bind h
  · cases h
  obtain ⟨e | exported, -, h⟩ := Conversation.CanEnd.of_bind h
  · cases h
  dsimp only at h
  split at h
  · cases h
  · next references hreferences =>
    cases h
    intro asset hasset
    obtain ⟨reference, hreference, hemitted⟩ := List.mem_filterMap.1 hasset
    have hresolved : ∃ key remoteUrl bytes contentType,
        reference = Reference.resolve r.options key remoteUrl bytes contentType := by
      rw [List.mem_append, List.mem_append] at hreference
      rcases hreference with (hreference | hreference) | hreference
      · rw [Table.values, List.map_map, List.mem_map] at hreference
        obtain ⟨e, -, rfl⟩ := hreference
        exact ⟨_, _, _, _, rfl⟩
      · obtain ⟨e, -, rfl⟩ := List.mem_map.1 hreference
        exact ⟨_, _, _, _, rfl⟩
      · obtain ⟨e, he, rfl⟩ := List.mem_map.1 hreference
        obtain ⟨⟨id, mask⟩, hzip, he⟩ := List.mem_filterMap.1 he
        obtain ⟨reference, rfl, rfl⟩ := Option.map_eq_some_iff.1 he
        exact ⟨id, Resolver.exists_resolve_of_maskReference? (eq_ok_of_mem_zip hreferences hzip)⟩
    obtain ⟨key, remoteUrl, bytes, contentType, rfl⟩ := hresolved
    exact ⟨key, contentType, Reference.fileName_of_emitted? hemitted⟩

end Assets

theorem Compiler.assets_of_emit {c : Compiler} {scene : NormalizedScene} {descriptions : Table String}
    {resources : Assets.Resources} {out : Compilation}
    (h : c.emit scene descriptions resources = .ok out) : out.assets = resources.emitted := by
  rw [emit_eq] at h
  rcases hbuilds : Step.exec (buildAll (c.context scene descriptions resources)) {} with ⟨e | u, r⟩ <;>
    rw [hbuilds] at h <;> cases h
  rfl

theorem Compiler.exists_fileName_of_compileCanvas {c : Compiler} {canvas : SceneNode} {out : Compilation}
    (h : (c.compileCanvas canvas).run.CanEnd (.ok out)) :
    ∀ asset ∈ out.assets, ∃ key contentType, asset.fileName = Assets.Reference.fileName key contentType := by
  obtain ⟨-, -, h⟩ := Run.bind_eq_ok h
  obtain ⟨descriptions, -, h⟩ := Run.bind_eq_ok h
  obtain ⟨resources, hresources, h⟩ := Run.bind_eq_ok h
  have hassets : out.assets = resources.emitted := by
    cases hemit : c.emit (.ofCanvas c.options canvas) descriptions resources with
    | error e =>
        rw [hemit] at h
        cases h
    | ok out' =>
        rw [hemit] at h
        cases h
        exact assets_of_emit hemit
  rw [hassets]
  obtain ⟨⟨r, p⟩, hresolve, hr⟩ := Conversation.CanEnd.of_bind hresources
  cases hr
  exact Assets.Resolver.exists_fileName_of_resolve hresolve

theorem Conversation.canEnd_runM {σ α : Type} (answer : (q : Question) → StateM σ (Except FetchError q.Answer))
    (c : Conversation α) (s : σ) : c.CanEnd ((c.runM answer).run s).1 := by
  induction c generalizing s with
  | done a => exact .done a
  | ask q next ih => exact .ask _ (ih _ _)

theorem Compiler.exists_compileCanvas_of_compile {c : Compiler} {out : Compilation}
    (h : c.compile.run.CanEnd (.ok out)) : ∃ canvas, (c.compileCanvas canvas).run.CanEnd (.ok out) := by
  obtain ⟨-, -, h⟩ := Run.bind_eq_ok h
  obtain ⟨canvas, -, h⟩ := Run.bind_eq_ok h
  exact ⟨canvas, h⟩

theorem Output.ComponentText.lt_utf8ByteSize_source (c : ComponentText) (o : Options) :
    9 < (c.source o).utf8ByteSize := by
  have hgrow {s t : String} (h : 9 < s.utf8ByteSize) : 9 < (s ++ t).utf8ByteSize := by
    rw [String.utf8ByteSize_append]
    omega
  rw [source, String.utf8ByteSize_append]
  refine Nat.lt_add_left _ ?_
  unfold body
  iterate 12 refine hgrow ?_
  decide

namespace CommandLine

open Maintains

def runWith {m : Type → Type} [Monad m] (files : Files m) (rasterize : Picture.Rasterizer) (a : Arguments)
    (o : Options) : ExceptT Failure m Unit := do
  let saved ← openDocument files a.document
  let compiler : Compiler := { options := o, rasterize }
  let output ← ExceptT.adapt Failure.design
    (ExceptT.mk (compiler.compile.run.runM (SavedDocument.answer files saved a.assets)))
  writeFiles files output.files
  writeAssets files o.imageDir output.assets

theorem run_eq {m : Type → Type} [Monad m] (files : Files m) (rasterize : Picture.Rasterizer) (a : Arguments) :
    run files a rasterize = loadOptions files a >>= runWith files rasterize a := rfl

section Running

variable {rasterize : Picture.Rasterizer} {P : FileTable → Prop} {o : Options}

theorem maintains_runWith_of
    (h : ∀ canvas out, (({ options := o, rasterize } : Compiler).compileCanvas canvas).run.CanEnd (.ok out) →
        Maintains P (writeFiles FileTable.asFiles out.files).run ∧
          Maintains P (writeAssets FileTable.asFiles o.imageDir out.assets).run) (a : Arguments) :
    Maintains P (runWith FileTable.asFiles rasterize a o).run := by
  refine bind_run (maintains_openDocument a.document) fun saved => ?_
  refine bind_of (Q := fun out => ∃ canvas,
    (({ options := o, rasterize } : Compiler).compileCanvas canvas).run.CanEnd (.ok out))
    ?_ ?_ ?_
  · exact bind (runM (maintains_answer saved a.assets) _) fun _ => pure _
  · intro t out hout
    refine Compiler.exists_compileCanvas_of_compile ?_
    have hend := Conversation.canEnd_runM (saved.answer FileTable.asFiles a.assets)
      (Compiler.compile { options := o, rasterize }).run t
    change Except.mapError Failure.design (StateT.run (Conversation.runM
      (saved.answer FileTable.asFiles a.assets)
      (Compiler.compile { options := o, rasterize }).run) t).1 = .ok out at hout
    cases hr : (StateT.run (Conversation.runM (saved.answer FileTable.asFiles a.assets)
        (Compiler.compile { options := o, rasterize }).run) t).1 with
    | error e =>
        rw [hr] at hout
        cases hout
    | ok out' =>
        rw [hr] at hout hend
        cases hout
        exact hend
  · rintro out ⟨canvas, hend⟩
    obtain ⟨hfiles, hassets⟩ := h canvas out hend
    exact bind_run hfiles fun _ => hassets

theorem of_runWith {a : Arguments} {t : FileTable} (ho : ((loadOptions FileTable.asFiles a).run.run t).1 = .ok o)
    (h : Maintains P (runWith FileTable.asFiles rasterize a o).run) (ht : P t) :
    P ((CommandLine.run FileTable.asFiles a rasterize).run.run t).2 := by
  have hsame := maintains_loadOptions (P := (· = t)) a t rfl
  rw [run_eq, run_bind_eq]
  rcases hload : (loadOptions FileTable.asFiles a).run.run t with ⟨r, u⟩
  rw [hload] at ho hsame
  obtain rfl : r = .ok o := ho
  obtain rfl : u = t := hsame
  exact h u ht

end Running

section Shell

variable {rasterize : Picture.Rasterizer} {o : Options} {stem : String} {old : Bytes}

theorem maintains_writeAssets (hstem : ∀ c ∈ stem.toList, isStemChar c) (dir : String)
    {assets : List Assets.Emitted}
    (h : ∀ asset ∈ assets, ∃ key contentType, asset.fileName = Assets.Reference.fileName key contentType) :
    Maintains (fun t : FileTable => t.lookup (FileTable.key (Files.join o.outDir (stem ++ ".tsx"))) = some old)
      (writeAssets FileTable.asFiles dir assets).run := by
  refine maintains_writeAssets_of fun asset hasset t ht => ?_
  obtain ⟨key, contentType, hname⟩ := h asset hasset
  have hne := Assets.Reference.key_fileName_ne key contentType dir o.outDir hstem
  rw [hname]
  exact (Table.lookup_put_of_ne hne.symm _ t).trans ht

theorem maintains_runWith (hspares : o.Spares (Files.join o.outDir (stem ++ ".tsx")))
    (hstem : ∀ c ∈ stem.toList, isStemChar c) (a : Arguments) :
    Maintains (fun t : FileTable => t.lookup (FileTable.key (Files.join o.outDir (stem ++ ".tsx"))) = some old)
      (runWith FileTable.asFiles rasterize a o).run := by
  refine maintains_runWith_of (fun canvas out h => ?_) a
  have hsources := Options.Spares.key_ne (c := { options := o, rasterize }) hspares h
  exact ⟨maintains_writeFiles hsources,
    maintains_writeAssets hstem o.imageDir (Compiler.exists_fileName_of_compileCanvas h)⟩

/-- What runs with the same options make of some files, whatever they compile or draw and however they end, with
changes between them that leave one of the files as it is. -/
inductive Runs (o : Options) (path : String) (t : FileTable) : FileTable → Prop
  | start : Runs o path t t
  | run {u : FileTable} (h : Runs o path t u) (rasterize : Picture.Rasterizer) (a : Arguments)
      (ho : ((loadOptions FileTable.asFiles a).run.run u).1 = .ok o) :
      Runs o path t ((CommandLine.run FileTable.asFiles a rasterize).run.run u).2
  | change {u v : FileTable} (h : Runs o path t u) (hv : v.file? path = u.file? path) : Runs o path t v

theorem FileTable.file?_eq_some {path : String} {t : FileTable} :
    t.file? path = some old ↔ Files.isDirectoryPath path = false ∧ t.lookup (FileTable.key path) = some old := by
  rw [FileTable.file?]
  cases Files.isDirectoryPath path <;> simp

theorem lookup_run (hspares : o.Spares (Files.join o.outDir (stem ++ ".tsx"))) (hstem : ∀ c ∈ stem.toList, isStemChar c)
    {a : Arguments} {t : FileTable} (ho : ((loadOptions FileTable.asFiles a).run.run t).1 = .ok o)
    (ht : t.lookup (FileTable.key (Files.join o.outDir (stem ++ ".tsx"))) = some old) :
    ((CommandLine.run FileTable.asFiles a rasterize).run.run t).2.lookup
      (FileTable.key (Files.join o.outDir (stem ++ ".tsx"))) = some old :=
  of_runWith (P := fun t => t.lookup (FileTable.key (Files.join o.outDir (stem ++ ".tsx"))) = some old) ho
    (maintains_runWith hspares hstem a) ht

theorem Runs.file?_eq (hspares : o.Spares (Files.join o.outDir (stem ++ ".tsx")))
    (hstem : ∀ c ∈ stem.toList, isStemChar c) {t u : FileTable}
    (h : Runs o (Files.join o.outDir (stem ++ ".tsx")) t u)
    (ht : t.file? (Files.join o.outDir (stem ++ ".tsx")) = some old) :
    u.file? (Files.join o.outDir (stem ++ ".tsx")) = some old := by
  induction h with
  | start => exact ht
  | run _ rasterize a ho ih =>
      obtain ⟨hfile, hlookup⟩ := FileTable.file?_eq_some.1 ih
      exact FileTable.file?_eq_some.2 ⟨hfile, lookup_run hspares hstem ho hlookup⟩
  | change _ hv ih => exact hv.trans ih

end Shell

/-- A shell that is there keeps its bytes, unless sources with the path of it are written: then it has those
of the last one. Where no component can have such a source, as with suffixes like `.generated`, an edit of
the shell outlives all runs with the same options. -/
theorem kept_shell {c : Compiler} {canvas : SceneNode} {out : Compilation}
    (h : (c.compileCanvas canvas).run.CanEnd (.ok out)) {path content : String}
    (hshell : ⟨path, content, false⟩ ∈ out.files) {t : FileTable} {old : Bytes}
    (ht : t.file? path = some old) :
    (∀ u, (writeFiles FileTable.asFiles out.files).run.run t = (.ok (), u) →
      u.file? path = some (bytesAfter (FileTable.key path) old out.files)) ∧
    ((∀ f ∈ out.files, f.overwrite → FileTable.key f.path ≠ FileTable.key path) →
      ((writeFiles FileTable.asFiles out.files).run.run t).2.file? path = some old) ∧
    (c.options.Spares path →
      (∀ f ∈ out.files, f.overwrite → FileTable.key f.path ≠ FileTable.key path) ∧
        ∀ u, Runs c.options path t u → u.file? path = some old) ∧
    ((∃ ch ∈ c.options.fileSuffix.toList, isStemChar ch = false) → '/' ∉ c.options.fileSuffix.toList →
      c.options.Spares path) := by
  obtain ⟨hfile, hlookup⟩ := FileTable.file?_eq_some.1 ht
  obtain ⟨hnamed, hfiles⟩ := c.named_of_compileCanvas h
  rw [hfiles] at hshell
  obtain ⟨d, hd, hmem⟩ := List.mem_flatMap.1 hshell
  have hstem := Component.isStemChar_of_named (hnamed d hd)
  obtain rfl : path = Files.join c.options.outDir (d.fileName ++ ".tsx") := by
    rcases List.mem_pair.1 hmem with heq | heq
    · cases congrArg Output.GeneratedFile.overwrite heq
    · exact congrArg Output.GeneratedFile.path heq
  refine ⟨?_, ?_, ?_, ?_⟩
  · intro u hu
    exact FileTable.file?_eq_some.2 ⟨hfile, lookup_of_writeFiles hu hlookup⟩
  · intro hapart
    exact FileTable.file?_eq_some.2 ⟨hfile, maintains_writeFiles hapart t hlookup⟩
  · intro hspares
    exact ⟨hspares.key_ne h, fun u hu => hu.file?_eq hspares hstem ht⟩
  · intro hchar hslash
    exact Options.spares_of_suffix hchar hslash hstem

def edit : String := "// edited"

def savedNode (id name kind : String) (children : List Json) : Json :=
  .object [("id", .string id), ("name", .string name), ("type", .string kind), ("children", .array children)]

def savedCard : Json :=
  .object [("document", savedNode "0" "Document" "DOCUMENT"
    [savedNode "0:0" "Page" "CANVAS" [savedNode "1" "#Card" "FRAME" [savedNode "2" "#Badge" "FRAME" []]]])]

def editedCard : FileTable :=
  [("d.json", Bytes.ofString savedCard.render), ("src/design-system/card.tsx", Bytes.ofString edit)]

/-- Whether the shell of the card is a file of the run, whether the files can be written around the edited
one, and whether there is a source with its path. -/
def cardShell (c : Compiler) : Option (Bool × Bool × Bool) :=
  ((c.compileCanvas cardOverBadge).run.run bareSource).2.toOption.map fun out =>
    (out.files.any fun f => f.path = "./src/design-system/card.tsx" && !f.overwrite,
      ((writeFiles FileTable.asFiles out.files).run.run editedCard).1.isOk,
      out.files.any fun f => f.overwrite &&
        FileTable.key f.path = FileTable.key "./src/design-system/card.tsx")

theorem exists_of_cardShell {c : Compiler} {replaced : Bool} (h : cardShell c = some (true, true, replaced)) :
    ∃ out content u, (c.compileCanvas cardOverBadge).run.CanEnd (.ok out) ∧
      ⟨"./src/design-system/card.tsx", content, false⟩ ∈ out.files ∧
      (writeFiles FileTable.asFiles out.files).run.run editedCard = (.ok (), u) ∧
      (out.files.any fun f => f.overwrite &&
        FileTable.key f.path = FileTable.key "./src/design-system/card.tsx") = replaced := by
  rw [cardShell] at h
  have hend := Conversation.canEnd_run bareSource (c.compileCanvas cardOverBadge).run
  rcases hout : ((c.compileCanvas cardOverBadge).run.run bareSource).2 with e | out <;>
    rw [hout] at h hend
  · cases h
  · obtain ⟨hany, hrest⟩ := Prod.mk.inj (Option.some.inj h)
    obtain ⟨hok, hreplaced⟩ := Prod.mk.inj hrest
    obtain ⟨⟨path, content, overwrite⟩, hmem, hshell⟩ := List.any_eq_true.1 hany
    obtain ⟨rfl, rfl⟩ : path = "./src/design-system/card.tsx" ∧ overwrite = false := by simpa using hshell
    rcases hwritten : (writeFiles FileTable.asFiles out.files).run.run editedCard with ⟨e | _, u⟩ <;>
      rw [hwritten] at hok
    · cases hok
    · exact ⟨out, content, u, hend, hmem, hwritten, hreplaced⟩

theorem cardShell_plainCompiler : cardShell plainCompiler = some (true, true, false) := by
  decide +kernel

theorem loadOptions_plain :
    ((loadOptions FileTable.asFiles { document := "d.json" }).run.run editedCard).1 = .ok {} := by
  decide

theorem run_editedCard :
    Prod.map Except.isOk Table.keys
        ((CommandLine.run FileTable.asFiles { document := "d.json" }).run.run editedCard) =
      (true, ["d.json", "src/design-system/card.tsx", "src/design-system/badge.generated.tsx",
        "src/design-system/badge.tsx", "src/design-system/card.generated.tsx"]) := by
  decide +kernel

/-- A run compiles the document and writes around the edited shell of its card. -/
theorem kept_shell_cardOverBadge :
    ∃ out content u, (plainCompiler.compileCanvas cardOverBadge).run.CanEnd (.ok out) ∧
      ⟨"./src/design-system/card.tsx", content, false⟩ ∈ out.files ∧
      (writeFiles FileTable.asFiles out.files).run.run editedCard = (.ok (), u) ∧
      u.file? "./src/design-system/card.tsx" = some (Bytes.ofString edit) ∧
      ∃ v, (CommandLine.run FileTable.asFiles { document := "d.json" }).run.run editedCard = (.ok (), v) ∧
        v.keys = ["d.json", "src/design-system/card.tsx", "src/design-system/badge.generated.tsx",
          "src/design-system/badge.tsx", "src/design-system/card.generated.tsx"] ∧
        v.file? "./src/design-system/card.tsx" = some (Bytes.ofString edit) := by
  obtain ⟨out, content, u, hend, hmem, hwritten, -⟩ := exists_of_cardShell cardShell_plainCompiler
  have hedited : editedCard.file? "./src/design-system/card.tsx" = some (Bytes.ofString edit) := by
    decide +kernel
  obtain ⟨-, hapart, hspared, hsuffix⟩ := kept_shell hend hmem hedited
  obtain ⟨hsources, hruns⟩ := hspared (hsuffix ⟨'.', by decide, by decide⟩ (by decide))
  have hkept := hapart hsources
  rw [hwritten] at hkept
  have hafter := hruns _ (.run .start Picture.rasterize { document := "d.json" } loadOptions_plain)
  have hrun := run_editedCard
  rcases hresult : (CommandLine.run FileTable.asFiles { document := "d.json" }).run.run editedCard with ⟨e | _, v⟩ <;>
    rw [hresult] at hrun hafter
  · cases (Prod.mk.inj hrun).1
  · exact ⟨out, content, u, hend, hmem, hwritten, hkept, v, rfl, (Prod.mk.inj hrun).2, hafter⟩

def unsuffixedCompiler : Compiler where
  options := { fileSuffix := "" }
  rasterize _ _ := .error .parse

theorem cardShell_unsuffixedCompiler : cardShell unsuffixedCompiler = some (true, true, true) := by
  decide +kernel

/-- Without a suffix the source of the card, which is longer than the edit, replaces its shell. -/
theorem not_forall_kept_shell :
    ¬ ∀ (c : Compiler) (canvas : SceneNode) (out : Compilation),
      (c.compileCanvas canvas).run.CanEnd (.ok out) → ∀ path content,
        ⟨path, content, false⟩ ∈ out.files → ∀ (t u : FileTable) (old : Bytes), t.file? path = some old →
          (writeFiles FileTable.asFiles out.files).run.run t = (.ok (), u) → u.file? path = some old := by
  intro h
  obtain ⟨out, content, u, hend, hmem, hwritten, hreplaced⟩ :=
    exists_of_cardShell cardShell_unsuffixedCompiler
  have hsame := h _ _ out hend _ content hmem editedCard u (Bytes.ofString edit) (by decide +kernel) hwritten
  have hedited : editedCard.lookup (FileTable.key "./src/design-system/card.tsx") =
      some (Bytes.ofString edit) := by
    decide +kernel
  have hsource := lookup_of_writeFiles hwritten hedited
  rw [(FileTable.file?_eq_some.1 hsame).2] at hsource
  rcases bytesAfter_cases _ (Bytes.ofString edit) out.files with ⟨-, hnone⟩ | ⟨f, hf, hoverwrite, -, hbytes⟩
  · obtain ⟨f, hf, hfile⟩ := List.any_eq_true.1 hreplaced
    rw [Bool.and_eq_true, decide_eq_true_eq] at hfile
    exact hnone f hf hfile.1 hfile.2
  · obtain ⟨d, -, -, hcontent⟩ := Compiler.exists_source_of_overwrite hend hf hoverwrite
    rw [hbytes, hcontent] at hsource
    have hlength := congrArg List.length (Option.some.inj hsource)
    rw [Bytes.length_ofString, Bytes.length_ofString] at hlength
    have hlt := Output.ComponentText.lt_utf8ByteSize_source (.ofComponent d)
      unsuffixedCompiler.options
    have hedit : edit.utf8ByteSize = 9 := by decide
    omega

end CommandLine

end DesignCompiler

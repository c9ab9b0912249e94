import DesignCompiler.Proofs.Shells

namespace DesignCompiler

/-- Lower-case letters, digits and hyphens, with no hyphen at either end. -/
def IsStem (stem : List Char) : Prop :=
  (∀ c ∈ stem, isStemChar c) ∧ stem.head? ≠ some '-' ∧ stem.getLast? ≠ some '-'

theorem ne_nil_of_toList_fileStem {name : String} {before after : List Char}
    (h : (fileStem name).toList = before ++ '-' :: after) : before ≠ [] ∧ after ≠ [] := by
  have hwords : stemWords name ≠ [] := by
    rw [Ne, ← fileStem_eq_empty, ← String.toList_inj, h]
    simp
  -- An end of the stem beside a hyphen would be an empty word.
  have hsplit := splitOn_fileStem hwords
  rw [h, List.splitOn_append_cons_self] at hsplit
  have hnil : [] ∉ stemWords name := fun hmem => (of_mem_stemWords [] hmem).1 rfl
  rw [← hsplit, List.mem_append, not_or] at hnil
  constructor <;> rintro rfl
  · exact hnil.1 (by simp)
  · exact hnil.2 (by simp)

theorem isStem_fileStem (name : String) : IsStem (fileStem name).toList := by
  refine ⟨fun _ => isStemChar_of_mem, ?_, ?_⟩
  · intro hhead
    obtain ⟨after, hafter⟩ := List.head?_eq_some_iff.1 hhead
    have hsplit : (fileStem name).toList = [] ++ '-' :: after := hafter
    exact (ne_nil_of_toList_fileStem hsplit).1 rfl
  · intro hlast
    obtain ⟨before, hbefore⟩ := List.getLast?_eq_some_iff.1 hlast
    exact (ne_nil_of_toList_fileStem hbefore).2 rfl

namespace Assets

/-- Letters, digits and hyphens, then a dot and the extension of some kind of picture. -/
def IsPictureName (name : String) : Prop :=
  ∃ stem : String, (∀ c ∈ stem.toList, c.isAlphanum ∨ c = '-') ∧
    ∃ extension ∈ ["svg", "jpg", "gif", "webp", "png"], name = stem ++ "." ++ extension

theorem Reference.isPictureName_fileName (key contentType : String) :
    IsPictureName (fileName key contentType) := by
  refine ⟨fileStem key, fun _ => isAlphanum_of_mem_fileStem, extension contentType, ?_, rfl⟩
  rw [extension]
  split_ifs <;> decide

end Assets

namespace Files

def LiesIn (dir path : String) : Prop :=
  isAbsolute path = isAbsolute dir ∧
    ∃ name, IsPlain name ∧ names path.toList = names dir.toList ++ [name.toList]

theorem isAbsolute_join (dir : String) {path : String} (h : isAbsolute path = false) :
    isAbsolute (join dir path) = isAbsolute dir := by
  by_cases hempty : dir = ""
  · have hnone : isAbsolute "" = false := by decide
    simp [hempty, join, h, hnone]
  · have hfront : ∃ rest, join dir path = dir ++ rest := by
      by_cases hslash : dir.toList.getLast? = some '/'
      · exact ⟨path, by simp [join, h, hslash]⟩
      · exact ⟨"/" ++ path, by simp [join, h, hempty, hslash, String.append_assoc]⟩
    obtain ⟨rest, hrest⟩ := hfront
    obtain ⟨c, cs, hcs⟩ := List.exists_cons_of_ne_nil (l := dir.toList) (by simpa using hempty)
    simp [isAbsolute, hrest, hcs]

theorem liesIn_join (dir : String) {name : String} (h : IsPlain name) : LiesIn dir (join dir name) :=
  ⟨isAbsolute_join dir h.isAbsolute, name, h, by rw [names_join dir h.isAbsolute, h.names]⟩

end Files

namespace FileTable

open Files

/-- Files that differ from others only right inside of some directories. -/
def DiffersIn (dirs : List String) (t u : FileTable) : Prop :=
  ∀ k, u.lookup k ≠ t.lookup k → ∃ dir ∈ dirs, ∃ path, LiesIn dir path ∧ key path = k

variable {dirs : List String} {dir path : String} {t u : FileTable}

theorem DiffersIn.refl (dirs : List String) (t : FileTable) : DiffersIn dirs t t :=
  fun _ h => absurd rfl h

theorem DiffersIn.put (h : DiffersIn dirs t u) (hdir : dir ∈ dirs) (hpath : LiesIn dir path) (bytes : Bytes) :
    DiffersIn dirs t (Table.put (key path) bytes u) := by
  intro k hk
  by_cases hkey : k = key path
  · exact ⟨dir, hdir, path, hpath, hkey.symm⟩
  · rw [Table.lookup_put_of_ne hkey] at hk
    exact h k hk

end FileTable

namespace Compiler

variable {c : Compiler} {canvas : SceneNode} {out : Compilation}

theorem isStem_of_compileCanvas (h : (c.compileCanvas canvas).run.CanEnd (.ok out)) :
    ∀ d ∈ out.components, IsStem d.fileName.toList := by
  intro d hd
  rw [((c.named_of_compileCanvas h).1 d hd).file_eq]
  exact isStem_fileStem d.name

theorem liesIn_of_compileCanvas (h : (c.compileCanvas canvas).run.CanEnd (.ok out))
    (hsuffix : '/' ∉ c.options.fileSuffix.toList) :
    ∀ f ∈ out.files, Files.LiesIn c.options.outDir f.path := by
  obtain ⟨hnamed, hfiles⟩ := c.named_of_compileCanvas h
  rw [hfiles]
  intro f hf
  obtain ⟨d, hd, hf⟩ := List.mem_flatMap.1 hf
  have hstem := slash_notMem_of_isStemChar (Component.isStemChar_of_named (hnamed d hd))
  have hsource : '/' ∉ (d.fileName ++ c.options.fileSuffix).toList := by
    rw [String.toList_append, List.mem_append]
    exact not_or.2 ⟨hstem, hsuffix⟩
  rcases List.mem_pair.1 hf with rfl | rfl
  · exact Files.liesIn_join c.options.outDir (Files.isPlain_tsx hsource)
  · exact Files.liesIn_join c.options.outDir (Files.isPlain_tsx hstem)

theorem picture_of_compileCanvas (h : (c.compileCanvas canvas).run.CanEnd (.ok out)) :
    ∀ asset ∈ out.assets, Assets.IsPictureName asset.fileName ∧
      Files.LiesIn c.options.imageDir (Files.join c.options.imageDir asset.fileName) := by
  intro asset hasset
  obtain ⟨key, contentType, hname⟩ := exists_fileName_of_compileCanvas h asset hasset
  rw [hname]
  exact ⟨Assets.Reference.isPictureName_fileName key contentType,
    Files.liesIn_join c.options.imageDir (Assets.Reference.isPlain_fileName key contentType)⟩

end Compiler

namespace CommandLine

open Maintains

theorem differsIn_run (rasterize : Picture.Rasterizer) {a : Arguments} {t : FileTable} {o : Options}
    (ho : ((loadOptions FileTable.asFiles a).run.run t).1 = .ok o) (hsuffix : '/' ∉ o.fileSuffix.toList) :
    FileTable.DiffersIn [o.outDir, o.imageDir] t ((run FileTable.asFiles a rasterize).run.run t).2 := by
  refine of_runWith ho (maintains_runWith_of (fun canvas out h => ⟨?_, ?_⟩) a) (FileTable.DiffersIn.refl _ t)
  · refine forM_run fun f hf => maintains_writeFile_of fun u hu _ => ?_
    exact hu.put List.mem_cons_self (Compiler.liesIn_of_compileCanvas h hsuffix f hf) _
  · refine maintains_writeAssets_of fun asset hasset u hu => ?_
    exact hu.put (by simp) (Compiler.picture_of_compileCanvas h asset hasset).2 _

end CommandLine

/-- Whatever the layers and the pictures of a design are called and whatever a design tool answers, the stems
of sources and the names of pictures have plain characters only. With a suffix without a slash all files of a
run lie right inside of the output directory and its pictures right inside of theirs, and however a run of
the command line ends, no other file has changed. -/
theorem confined_writes :
    (∀ (d : Delimiters) (name : String), IsStem (fileStem (componentName d name)).toList) ∧
    (∀ (o : Options) (key : String) (remoteUrl reported : Option String) (bytes : Bytes)
      (asset : Assets.Emitted),
      (Assets.Reference.resolve o key remoteUrl bytes (Picture.contentType bytes reported)).emitted? =
        some asset → Assets.IsPictureName asset.fileName) ∧
    (∀ (c : Compiler) (canvas : SceneNode) (out : Compilation),
      (c.compileCanvas canvas).run.CanEnd (.ok out) →
        (∀ d ∈ out.components, IsStem d.fileName.toList) ∧
        (∀ asset ∈ out.assets, Assets.IsPictureName asset.fileName ∧
          Files.LiesIn c.options.imageDir (Files.join c.options.imageDir asset.fileName)) ∧
        ('/' ∉ c.options.fileSuffix.toList → ∀ f ∈ out.files, Files.LiesIn c.options.outDir f.path)) ∧
    ∀ (rasterize : Picture.Rasterizer) (a : CommandLine.Arguments) (t : FileTable) (o : Options),
      ((CommandLine.loadOptions FileTable.asFiles a).run.run t).1 = .ok o → '/' ∉ o.fileSuffix.toList →
        FileTable.DiffersIn [o.outDir, o.imageDir] t
          ((CommandLine.run FileTable.asFiles a rasterize).run.run t).2 := by
  refine ⟨fun d name => isStem_fileStem _, ?_, fun c canvas out h => ?_, fun rasterize a t o ho hsuffix => ?_⟩
  · intro o key remoteUrl reported bytes asset hasset
    rw [Assets.Reference.fileName_of_emitted? hasset]
    exact Assets.Reference.isPictureName_fileName key _
  · exact ⟨Compiler.isStem_of_compileCanvas h, Compiler.picture_of_compileCanvas h,
      fun hsuffix => Compiler.liesIn_of_compileCanvas h hsuffix⟩
  · exact CommandLine.differsIn_run rasterize ho hsuffix

def climbingCard : SceneNode where
  attrs := { id := "0:0", name := "Page", kind := .canvas }
  children :=
    [{ attrs := { id := "1", name := "#../../Über-Card/" }
       children := [{ attrs := { id := "../2", name := "icon", kind := .vector } }] }]

def onePicture : Source
  | .canvas => .ok climbingCard
  | .descriptions _ => .ok []
  | .exports e => .ok (e.ids.map fun id => (id, some "picture"))
  | .fills => .ok []
  | .fetch _ => .ok { bytes := Bytes.ofString "<svg/>", contentType := some "image/svg+xml" }

def filingCompiler : Compiler where
  options := { imageMode := .file }
  rasterize _ _ := .error .parse

theorem paths_climbingCard :
    ((filingCompiler.compileCanvas climbingCard).run.run onePicture).2.toOption.map
      (fun out => (out.files.map Output.GeneratedFile.path, out.assets.map Assets.Emitted.fileName)) =
    some (["./src/design-system/ber-card.generated.tsx", "./src/design-system/ber-card.tsx"],
      ["---2.svg"]) := by
  decide +kernel

theorem loadOptions_default (document : String) (t : FileTable) :
    ((CommandLine.loadOptions FileTable.asFiles { document }).run.run t).1 = .ok {} := by
  have hpreset : Options.ofPreset "default" = .ok {} := by decide
  have hvalid : Options.validate {} = .ok () := by decide
  rw [CommandLine.loadOptions, CommandLine.run_liftM_bind, hpreset]
  dsimp only [Except.mapError, Option.getD_none]
  rw [pure_bind, CommandLine.run_liftM_bind, hvalid]
  rfl

/-- The card has its files in the output directory, and its icon is in the directory of pictures. No run
with plain arguments changes other files, whatever it reads. -/
theorem confined_writes_climbingCard :
    (∃ out, (filingCompiler.compileCanvas climbingCard).run.CanEnd (.ok out) ∧
      out.files.map Output.GeneratedFile.path =
        ["./src/design-system/ber-card.generated.tsx", "./src/design-system/ber-card.tsx"] ∧
      out.assets.map Assets.Emitted.fileName = ["---2.svg"] ∧
      (∀ f ∈ out.files, Files.LiesIn "./src/design-system" f.path) ∧
      ∀ asset ∈ out.assets, Files.LiesIn "./static/images" (Files.join "./static/images" asset.fileName)) ∧
    ∀ (rasterize : Picture.Rasterizer) (t : FileTable),
      FileTable.DiffersIn ["./src/design-system", "./static/images"] t
        ((CommandLine.run FileTable.asFiles { document := "d.json" } rasterize).run.run t).2 := by
  obtain ⟨-, -, hcompiled, hrun⟩ := confined_writes
  refine ⟨?_, fun rasterize t => hrun rasterize { document := "d.json" } t {} (loadOptions_default "d.json" t)
    (by decide)⟩
  obtain ⟨out, hend, hpaths⟩ := Conversation.exists_canEnd_of_run paths_climbingCard
  obtain ⟨hfiles, hassets⟩ := Prod.mk.inj hpaths
  obtain ⟨-, hpictures, hsources⟩ := hcompiled filingCompiler climbingCard out hend
  exact ⟨out, hend, hfiles, hassets, hsources (by decide), fun asset hasset => (hpictures asset hasset).2⟩

end DesignCompiler

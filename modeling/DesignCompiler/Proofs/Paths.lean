import Mathlib.Data.List.Nodup
import Mathlib.Data.List.Perm.Basic
import DesignCompiler.Proofs.Compilation
import DesignCompiler.Proofs.Stems

namespace DesignCompiler

namespace Files

def names (path : List Char) : List (List Char) :=
  (path.splitOn '/').filter fun name => name ≠ [] && name ≠ ['.']

/-- A path as it is compared with others: a slash or a dot in front counts besides its names. -/
def identity (path : String) : Bool × Bool × List (List Char) :=
  (isAbsolute path, (path.toList.splitOn '/').head? = some ['.'], names path.toList)

theorem names_append_slash (l m : List Char) : names (l ++ '/' :: m) = names l ++ names m := by
  rw [names, List.splitOn_append_cons_self, List.filter_append]
  rfl

theorem names_join (dir : String) {path : String} (h : isAbsolute path = false) :
    names (join dir path).toList = names dir.toList ++ names path.toList := by
  have hnil : names [] = [] := rfl
  by_cases hempty : dir = ""
  · simp [join, h, hempty, hnil]
  · by_cases hslash : dir.toList.getLast? = some '/'
    · obtain ⟨init, hinit⟩ := List.getLast?_eq_some_iff.1 hslash
      simp [join, h, hinit, names_append_slash, hnil]
    · simp [join, h, hslash, hempty, names_append_slash]

/-- A name that stands in a path as it is: it has no slash and is no way of writing a directory. -/
def IsPlain (name : String) : Prop := '/' ∉ name.toList ∧ name ∉ ["", ".", ".."]

section Plain

variable {name : String}

theorem isPlain_of_length (h : '/' ∉ name.toList) (hlength : 2 < name.toList.length) : IsPlain name := by
  refine ⟨h, ?_⟩
  simp only [List.mem_cons, List.not_mem_nil, or_false, not_or]
  refine ⟨?_, ?_, ?_⟩ <;> (rintro rfl; revert hlength; decide)

theorem isPlain_tsx (h : '/' ∉ name.toList) : IsPlain (name ++ ".tsx") := by
  refine isPlain_of_length ?_ (by simp)
  rw [String.toList_append, List.mem_append]
  exact not_or.2 ⟨h, by decide⟩

theorem IsPlain.isAbsolute (h : IsPlain name) : isAbsolute name = false := by
  rw [Files.isAbsolute, decide_eq_false_iff_not]
  exact fun hhead => h.1 (List.mem_of_mem_head? hhead)

theorem IsPlain.names (h : IsPlain name) : names name.toList = [name.toList] := by
  obtain ⟨hslash, hname⟩ := h
  simp only [List.mem_cons, List.not_mem_nil, or_false, not_or] at hname
  have hdot : name.toList ≠ ['.'] := fun h => hname.2.1 (String.toList_inj.1 h)
  rw [Files.names, List.splitOn_eq_singleton hslash, List.filter_cons_of_pos]
  · rfl
  · simpa [hdot] using hname.1

end Plain

theorem names_join_file (dir : String) {name : String} (h : '/' ∉ name.toList) :
    names (join dir (name ++ ".tsx")).toList = names dir.toList ++ [name.toList ++ ".tsx".toList] := by
  have hplain := isPlain_tsx h
  rw [names_join dir hplain.isAbsolute, hplain.names, String.toList_append]

section Stem

variable {stem stem' rest : String}

theorem isAbsolute_append (hstem : ∀ c ∈ stem.toList, isStemChar c) :
    isAbsolute (stem ++ rest) = (decide (stem = "") && isAbsolute rest) := by
  by_cases h : stem = ""
  · simp [h]
  · have hne : stem.toList ≠ [] := by simpa using h
    obtain ⟨c, cs, hcs⟩ := List.exists_cons_of_ne_nil hne
    have hslash : c ≠ '/' := by
      rintro rfl
      exact absurd (hstem '/' (hcs ▸ List.mem_cons_self)) (by decide)
    simp [isAbsolute, h, hcs, hslash]

theorem splitOn_append (stem rest : List Char) (hstem : '/' ∉ stem) :
    (stem ++ rest).splitOn '/' = (rest.splitOn '/').modifyHead (stem ++ ·) := by
  induction stem with
  | nil =>
      rw [List.nil_append]
      cases rest.splitOn '/' <;> rfl
  | cons c stem ih =>
      obtain ⟨hc, hrest⟩ := List.ne_and_not_mem_of_not_mem_cons hstem
      have hb : (c == '/') = false := by simpa using Ne.symm hc
      rw [List.cons_append, List.splitOn_cons_eq_if_modifyHead, hb, ih hrest]
      cases rest.splitOn '/' <;> rfl

/-- A stem that is not empty begins the first name of a path, which counts because of it. -/
theorem exists_names_append (rest : String) :
    ∃ first more, (names rest.toList).flatten.length ≤ first.length + more.flatten.length ∧
      ∀ stem : String, (∀ c ∈ stem.toList, isStemChar c) → stem ≠ "" →
        names (stem ++ rest).toList = (stem.toList ++ first) :: more := by
  obtain ⟨first, more, hsplit⟩ := List.exists_cons_of_ne_nil (List.splitOn_ne_nil '/' rest.toList)
  refine ⟨first, more.filter fun name => name ≠ [] && name ≠ ['.'], ?_, fun stem hstem hne => ?_⟩
  · rw [names, hsplit, List.filter_cons]
    split
    · simp
    · exact Nat.le_add_left ..
  · obtain ⟨c, cs, hcs⟩ := List.exists_cons_of_ne_nil (l := stem.toList) (by simpa using hne)
    have hslash : '/' ∉ stem.toList := fun h => absurd (hstem '/' h) (by decide)
    have hdot : c ≠ '.' := by
      rintro rfl
      exact absurd (hstem '.' (hcs ▸ List.mem_cons_self)) (by decide)
    rw [names, String.toList_append, splitOn_append _ _ hslash, hsplit, List.modifyHead_cons,
      List.filter_cons_of_pos]
    simp [hcs, hdot]

theorem names_join_ne (dir : String) (hstem : ∀ c ∈ stem.toList, isStemChar c) (hne : stem ≠ "") :
    names (join dir (stem ++ rest)).toList ≠ names (join dir rest).toList := by
  obtain ⟨first, more, hle, hnames⟩ := exists_names_append rest
  have hrelative : isAbsolute (stem ++ rest) = false := by
    rw [isAbsolute_append hstem]
    simp [hne]
  have hpos : 0 < stem.toList.length := List.length_pos_iff.2 (by simpa using hne)
  have hrest : (names (join dir rest).toList).flatten.length ≤
      (names dir.toList).flatten.length + (names rest.toList).flatten.length := by
    cases hr : isAbsolute rest with
    | true => simp [join, hr]
    | false => simp [names_join dir hr]
  intro h
  rw [names_join dir hrelative, hnames stem hstem hne] at h
  have hlength := congrArg (fun l => l.flatten.length) h
  simp only [List.flatten_append, List.flatten_cons, List.length_append] at hlength
  omega

theorem names_join_inj {dir : String} (hstem : ∀ c ∈ stem.toList, isStemChar c)
    (hstem' : ∀ c ∈ stem'.toList, isStemChar c)
    (h : names (join dir (stem ++ rest)).toList = names (join dir (stem' ++ rest)).toList) :
    stem = stem' := by
  by_cases hne : stem = ""
  · by_cases hne' : stem' = ""
    · rw [hne, hne']
    · rw [hne, String.empty_append] at h
      exact absurd h.symm (names_join_ne dir hstem' hne')
  · by_cases hne' : stem' = ""
    · rw [hne', String.empty_append] at h
      exact absurd h (names_join_ne dir hstem hne)
    · obtain ⟨first, more, -, hnames⟩ := exists_names_append rest
      have hrelative {stem : String} (hstem : ∀ c ∈ stem.toList, isStemChar c) (hne : stem ≠ "") :
          isAbsolute (stem ++ rest) = false := by
        rw [isAbsolute_append hstem]
        simp [hne]
      rw [names_join dir (hrelative hstem hne), names_join dir (hrelative hstem' hne'), hnames stem hstem hne,
        hnames stem' hstem' hne', List.append_cancel_left_eq, List.cons.injEq, List.append_cancel_right_eq,
        String.toList_inj] at h
      exact h.1

end Stem

end Files

namespace Component

variable {o : Options} {a b : Component}

def sourcePath (o : Options) (c : Component) : String :=
  Files.join o.outDir (c.fileName ++ o.fileSuffix ++ ".tsx")

def shellPath (o : Options) (c : Component) : String := Files.join o.outDir (c.fileName ++ ".tsx")

theorem map_identity_files (o : Options) (c : Component) :
    (((Output.ComponentText.ofComponent c).files o).map fun f => Files.identity f.path) =
      [Files.identity (c.sourcePath o), Files.identity (c.shellPath o)] := rfl

theorem isStemChar_of_named {suffix name : String} (h : a.IsNamed suffix name) :
    ∀ c ∈ a.fileName.toList, isStemChar c := by
  rw [h.file_eq]
  exact fun _ => isStemChar_of_mem

theorem fileName_inj {suffix name name' : String} (ha : a.IsNamed suffix name)
    (hb : b.IsNamed suffix name') : a.fileName = b.fileName ↔ stemWords a.name = stemWords b.name := by
  rw [ha.file_eq, hb.file_eq, fileStem_inj, ha.name_eq, hb.name_eq]

theorem identity_sourcePath_inj {suffix name name' : String} (ha : a.IsNamed suffix name)
    (hb : b.IsNamed suffix name') :
    Files.identity (a.sourcePath o) = Files.identity (b.sourcePath o) ↔
      stemWords a.name = stemWords b.name := by
  rw [← fileName_inj ha hb, sourcePath, sourcePath, String.append_assoc, String.append_assoc]
  constructor
  · intro h
    exact Files.names_join_inj (isStemChar_of_named ha) (isStemChar_of_named hb)
      (Prod.mk.inj (Prod.mk.inj h).2).2
  · intro h
    rw [h]

theorem identity_shellPath_inj {suffix name name' : String} (ha : a.IsNamed suffix name)
    (hb : b.IsNamed suffix name') :
    Files.identity (a.shellPath o) = Files.identity (b.shellPath o) ↔
      stemWords a.name = stemWords b.name := by
  rw [← fileName_inj ha hb, shellPath, shellPath]
  constructor
  · intro h
    exact Files.names_join_inj (isStemChar_of_named ha) (isStemChar_of_named hb)
      (Prod.mk.inj (Prod.mk.inj h).2).2
  · intro h
    rw [h]

/-- A suffix with a character that no stem has keeps sources and shells apart, unless it has parts. -/
theorem identity_sourcePath_ne {suffix name name' : String} (ha : a.IsNamed suffix name)
    (hb : b.IsNamed suffix name') (hchar : ∃ c ∈ o.fileSuffix.toList, isStemChar c = false)
    (hslash : '/' ∉ o.fileSuffix.toList) :
    Files.identity (a.sourcePath o) ≠ Files.identity (b.shellPath o) := by
  obtain ⟨c, hc, hstem⟩ := hchar
  have hplain {d : Component} {name : String} (hd : d.IsNamed suffix name) : '/' ∉ d.fileName.toList :=
    fun h => absurd (isStemChar_of_named hd _ h) (by decide)
  have hsource : '/' ∉ (a.fileName ++ o.fileSuffix).toList := by
    rw [String.toList_append, List.mem_append]
    exact not_or.2 ⟨hplain ha, hslash⟩
  intro h
  have hnames := (Prod.mk.inj (Prod.mk.inj h).2).2
  rw [sourcePath, shellPath, Files.names_join_file _ hsource, Files.names_join_file _ (hplain hb),
    List.append_cancel_left_eq, List.cons.injEq, List.append_cancel_right_eq, String.toList_append] at hnames
  have hmem : c ∈ b.fileName.toList := hnames.1 ▸ List.mem_append_right _ hc
  rw [isStemChar_of_named hb c hmem] at hstem
  cases hstem

end Component

theorem nodup_map_iff {α β γ : Type} {f : α → β} {g : α → γ} {l : List α}
    (h : ∀ a ∈ l, ∀ b ∈ l, f a = f b ↔ g a = g b) : (l.map f).Nodup ↔ (l.map g).Nodup := by
  rw [List.Nodup, List.Nodup, List.pairwise_map, List.pairwise_map]
  exact ⟨fun hp => hp.imp_of_mem fun ha hb hne => mt (h _ ha _ hb).2 hne,
    fun hp => hp.imp_of_mem fun ha hb hne => mt (h _ ha _ hb).1 hne⟩

theorem Compiler.named_of_compileCanvas {c : Compiler} {canvas : SceneNode} {out : Compilation}
    (h : (c.compileCanvas canvas).run.CanEnd (.ok out)) :
    (∀ d ∈ out.components, d.IsNamed c.options.instanceSuffix d.name) ∧
      out.files = out.components.flatMap fun d => (Output.ComponentText.ofComponent d).files c.options := by
  obtain ⟨_, _, r, hbuilds, hcomponents, hfiles⟩ := exists_registry_of_compileCanvas h
  obtain ⟨hs, -⟩ := layered_of_builds (Registry.Sound.empty _) Registry.Layered.empty hbuilds
  refine ⟨fun d hd => ?_, hfiles⟩
  rw [hcomponents] at hd
  obtain ⟨e, he, rfl⟩ := List.mem_map.1 hd
  have hnamed := hs.named e he
  rwa [← hnamed.name_eq] at hnamed

/-- The files of a run have different paths just if no two components have the same words in their names,
up to case, and no source has the path of a shell. The latter is sure for suffixes like `.generated`. -/
theorem nodup_paths_iff {c : Compiler} {canvas : SceneNode} {out : Compilation}
    (h : (c.compileCanvas canvas).run.CanEnd (.ok out)) :
    ((out.files.map fun f => Files.identity f.path).Nodup ↔
      (out.components.map fun d => stemWords d.name).Nodup ∧ ∀ a ∈ out.components, ∀ b ∈ out.components,
        Files.identity (a.sourcePath c.options) ≠ Files.identity (b.shellPath c.options)) ∧
    ((∃ ch ∈ c.options.fileSuffix.toList, isStemChar ch = false) → '/' ∉ c.options.fileSuffix.toList →
      ∀ a ∈ out.components, ∀ b ∈ out.components,
        Files.identity (a.sourcePath c.options) ≠ Files.identity (b.shellPath c.options)) := by
  obtain ⟨hnamed, hfiles⟩ := c.named_of_compileCanvas h
  constructor
  · have hsource := nodup_map_iff fun a ha b hb =>
      Component.identity_sourcePath_inj (o := c.options) (hnamed a ha) (hnamed b hb)
    have hshell := nodup_map_iff fun a ha b hb =>
      Component.identity_shellPath_inj (o := c.options) (hnamed a ha) (hnamed b hb)
    have hperm := List.map_append_flatMap_perm out.components
      (fun d => Files.identity (d.sourcePath c.options)) fun d => [Files.identity (d.shellPath c.options)]
    rw [← List.map_eq_flatMap] at hperm
    rw [hfiles, List.map_flatMap]
    simp only [Component.map_identity_files]
    rw [← hperm.nodup_iff, List.nodup_append, hsource, hshell]
    simp only [List.mem_map, forall_exists_index, and_imp, forall_apply_eq_imp_iff₂]
    exact ⟨fun h => ⟨h.1, h.2.2⟩, fun h => ⟨h.1, h.1, h.2⟩⟩
  · intro hchar hslash a ha b hb
    exact Component.identity_sourcePath_ne (hnamed a ha) (hnamed b hb) hchar hslash

theorem nodup_paths_cardOverBadge :
    ∃ out, (plainCompiler.compileCanvas cardOverBadge).run.CanEnd (.ok out) ∧
      out.components.map Component.name = ["Badge", "Card"] ∧
      (out.files.map fun f => Files.identity f.path).Nodup := by
  have hnames := names_cardOverBadge
  rcases hout : ((plainCompiler.compileCanvas cardOverBadge).run.run bareSource).2 with e | out <;>
    rw [hout] at hnames
  · cases hnames
  · have hend := Conversation.canEnd_run bareSource (plainCompiler.compileCanvas cardOverBadge).run
    rw [hout] at hend
    have hnames : out.components.map Component.name = ["Badge", "Card"] := Option.some.inj hnames
    have hwords : (out.components.map fun d => stemWords d.name) = ["Badge", "Card"].map stemWords := by
      rw [← hnames, List.map_map]
      rfl
    obtain ⟨hiff, hapart⟩ := nodup_paths_iff hend
    refine ⟨out, hend, hnames, hiff.2 ⟨?_, hapart ⟨'.', by decide, by decide⟩ (by decide)⟩⟩
    rw [hwords]
    decide

def twoCards : SceneNode where
  attrs := { id := "0:0", name := "Page", kind := .canvas }
  children := [{ attrs := { id := "1", name := "#Card" } }, { attrs := { id := "2", name := "#card" } }]

theorem paths_twoCards :
    ((plainCompiler.compileCanvas twoCards).run.run bareSource).2.toOption.map
      (fun out => out.files.map Output.GeneratedFile.path) =
    some ["./src/design-system/card.generated.tsx", "./src/design-system/card.tsx",
      "./src/design-system/card.generated.tsx", "./src/design-system/card.tsx"] := by
  decide +kernel

/-- The files of the second card replace those of the first. -/
theorem not_forall_nodup_paths :
    ¬ ∀ (c : Compiler) (canvas : SceneNode) (out : Compilation), c.options.fileSuffix ≠ "" →
      (c.compileCanvas canvas).run.CanEnd (.ok out) →
        (out.files.map fun f => Files.identity f.path).Nodup := by
  intro h
  have hpaths := paths_twoCards
  rcases hout : ((plainCompiler.compileCanvas twoCards).run.run bareSource).2 with e | out <;>
    rw [hout] at hpaths
  · cases hpaths
  · have hend := Conversation.canEnd_run bareSource (plainCompiler.compileCanvas twoCards).run
    rw [hout] at hend
    have hnodup : ((out.files.map Output.GeneratedFile.path).map Files.identity).Nodup := by
      rw [List.map_map]
      exact h plainCompiler twoCards out (by decide) hend
    have hpaths : out.files.map Output.GeneratedFile.path = _ := Option.some.inj hpaths
    rw [hpaths] at hnodup
    exact absurd hnodup.of_map (by decide)

end DesignCompiler

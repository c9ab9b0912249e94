import DesignCompiler.Proofs.Overlays
import DesignCompiler.Proofs.Rereading
import DesignCompiler.Proofs.Writes

namespace DesignCompiler

open Json

def Json.Layered {α : Type} (file : Table Json) (name : String) (read : Json → Option α) (before after : α) : Prop :=
  match file.lookup name with
  | some json => read json = some after
  | none => after = before

def Delimiters.entries (file : Table Json) : Table Json :=
  match file.lookup "delimiters" with
  | some (.object entries) => entries
  | _ => []

structure Delimiters.Layers (file : Table Json) (preset d : Delimiters) : Prop where
  slot : Layered file "slot" string? preset.slot d.slot
  pair : Layered file "pair" string? preset.pair d.pair
  keyValue : Layered file "keyValue" string? preset.keyValue d.keyValue
  nested : Layered file "nested" string? preset.nested d.nested

/-- The fields of options that a file lays over a preset, one by one, those of the delimiters too. -/
structure Options.Layers (file : Table Json) (preset o : Options) : Prop where
  outDir : Layered file "outDir" string? preset.outDir o.outDir
  classPrefix : Layered file "classPrefix" string? preset.classPrefix o.classPrefix
  delimiters : Delimiters.Layers (Delimiters.entries file) preset.delimiters o.delimiters
  styleDelimiter : Layered file "styleDescriptionDelimiter" string? preset.styleDelimiter o.styleDelimiter
  imports : Layered file "imports" (list? string?) preset.imports o.imports
  decorator : Layered file "decorator" string? preset.decorator o.decorator
  instanceSuffix : Layered file "instanceSuffix" string? preset.instanceSuffix o.instanceSuffix
  fileSuffix : Layered file "fileSuffix" string? preset.fileSuffix o.fileSuffix
  imageMode : Layered file "imageMode" Named.decode? preset.imageMode o.imageMode
  imageFormat : Layered file "imageFormat" Named.decode? preset.imageFormat o.imageFormat
  imageScale : Layered file "imageScale" float? preset.imageScale o.imageScale
  imageDir : Layered file "imageDir" string? preset.imageDir o.imageDir
  imageUrlPrefix : Layered file "imageUrlPrefix" string? preset.imageUrlPrefix o.imageUrlPrefix
  strictMarkup : Layered file "strictMarkup" bool? preset.strictMarkup o.strictMarkup

namespace Json

variable {α : Type} {base file given : Table Json} {fields : List String}

/-- A reader of an object whose names are distinct sees its declared fields and passes over the others. -/
theorem exists_record?_eq {entries : Table Json} (h : entries.keys.Nodup) (fields : List String) :
    ∃ given, record? fields (.object entries) = some given ∧
      ∀ name ∈ fields, given.lookup name = entries.lookup name := by
  refine ⟨entries.filter fun e => fields.contains e.1, if_pos (h.sublist ?_), fun name hname => ?_⟩
  · exact List.filter_sublist.map Prod.fst
  · induction entries with
    | nil => rfl
    | cons e entries ih =>
        have hrest := ih (List.nodup_cons.1 h).2
        rw [List.lookup_cons, List.filter_cons]
        split
        · rw [List.lookup_cons, hrest]
        · next hother =>
          have hne : name ≠ e.1 := by
            rintro rfl
            exact hother (by simpa using hname)
          rw [hrest, beq_false_of_ne hne]

section Fields

variable (hfile : file.keys.Nodup)
  (hgiven : ∀ name ∈ fields, given.lookup name = (overlayEntries base file).lookup name)
  (name : String) (hname : name ∈ fields)

include hfile hgiven hname

/-- A field that is no object is read from the layer, or from below where the layer has no entry. -/
theorem withDefault?_overlaid {read : Json → Option α} {old : Json} {before : α} (hread : read old = some before)
    (hbase : base.lookup name = some old) (hold : ∀ entries, old ≠ .object entries) (default after : α) :
    withDefault? given name default read = some after ↔ Layered file name read before after := by
  rw [withDefault?, hgiven name hname, lookup_overlayEntries hfile, hbase, Layered]
  cases hname : file.lookup name with
  | none =>
      simp only [Option.map_none, Option.none_or, hread, Option.some_inj]
      exact eq_comm
  | some json =>
      simp only [Option.map_some, Option.some_or, overlay?, Option.elim_some, overlay_of_not_object hold]

theorem withDefault?_string_overlaid {before : String} (hbase : base.lookup name = some (.string before))
    (default after : String) :
    withDefault? given name default string? = some after ↔ Layered file name string? before after := by
  have hread : string? (.string before) = some before := rfl
  exact withDefault?_overlaid hfile hgiven name hname hread hbase nofun default after

end Fields

end Json

section Decoding

variable {file : Table Json}

def Delimiters.rows (d : Delimiters) : Table Json :=
  [("slot", .string d.slot), ("pair", .string d.pair), ("keyValue", .string d.keyValue), ("nested", .string d.nested)]

theorem Delimiters.decode?_overlay (h : file.keys.Nodup) (preset d : Delimiters) :
    Delimiters.decode? (overlay preset.encode (.object file)) = some d ↔ Delimiters.Layers file preset d := by
  have hrows : preset.rows.keys.Nodup := by simp [rows, Table.keys]
  obtain ⟨given, hrecord, hgiven⟩ := exists_record?_eq (nodup_keys_overlayEntries hrows file)
    ["slot", "pair", "keyValue", "nested"]
  have hencode : preset.encode = .object preset.rows := rfl
  rw [Delimiters.decode?, hencode, overlay_object_object, hrecord]
  simp only [Option.bind_eq_bind, Option.bind_some, Option.bind_eq_some_iff, Option.pure_def, Option.some_inj]
  have hslot := withDefault?_string_overlaid h hgiven "slot" (by simp) rfl "??"
  have hpair := withDefault?_string_overlaid h hgiven "pair" (by simp) rfl "&"
  have hkeyValue := withDefault?_string_overlaid h hgiven "keyValue" (by simp) rfl "="
  have hnested := withDefault?_string_overlaid h hgiven "nested" (by simp) rfl "."
  constructor
  · rintro ⟨slot, h₁, pair, h₂, keyValue, h₃, nested, h₄, rfl⟩
    exact ⟨(hslot _).1 h₁, (hpair _).1 h₂, (hkeyValue _).1 h₃, (hnested _).1 h₄⟩
  · rintro ⟨h₁, h₂, h₃, h₄⟩
    exact ⟨_, (hslot _).2 h₁, _, (hpair _).2 h₂, _, (hkeyValue _).2 h₃, _, (hnested _).2 h₄, rfl⟩

theorem withDefault?_delimiters {given : Table Json} {preset : Delimiters}
    (hgiven : given.lookup "delimiters" = ((file.lookup "delimiters").map (overlay? (some preset.encode))).or
      (some preset.encode))
    (hfile : ∀ json ∈ file.lookup "delimiters", ∃ entries : Table Json, json = .object entries ∧ entries.keys.Nodup)
    (default d : Delimiters) :
    withDefault? given "delimiters" default Delimiters.decode? = some d ↔
      Delimiters.Layers (Delimiters.entries file) preset d := by
  have hencode : overlay preset.encode (.object []) = preset.encode := by
    rw [Delimiters.encode, overlay_object_object, overlayEntries]
  rw [withDefault?, hgiven, Delimiters.entries]
  cases hjson : file.lookup "delimiters" with
  | none =>
      have hnil : (Table.keys ([] : Table Json)).Nodup := List.nodup_nil
      have hnone := Delimiters.decode?_overlay hnil preset d
      rw [hencode] at hnone
      simpa using hnone
  | some json =>
      obtain ⟨entries, rfl, hentries⟩ := hfile json hjson
      simpa [overlay?] using Delimiters.decode?_overlay hentries preset d

def Options.rows (o : Options) : Table Json :=
  [("outDir", .string o.outDir), ("classPrefix", .string o.classPrefix), ("delimiters", o.delimiters.encode),
    ("styleDescriptionDelimiter", .string o.styleDelimiter), ("imports", .array (o.imports.map .string)),
    ("decorator", .string o.decorator), ("instanceSuffix", .string o.instanceSuffix),
    ("fileSuffix", .string o.fileSuffix), ("imageMode", Named.encode o.imageMode),
    ("imageFormat", Named.encode o.imageFormat), ("imageScale", float o.imageScale), ("imageDir", .string o.imageDir),
    ("imageUrlPrefix", .string o.imageUrlPrefix), ("strictMarkup", .bool o.strictMarkup)]

theorem Options.decode?_overlay (h : file.keys.Nodup)
    (hdelimiters : ∀ json ∈ file.lookup "delimiters",
      ∃ entries : Table Json, json = .object entries ∧ entries.keys.Nodup)
    (preset o : Options) :
    Options.decode? (overlay preset.encode (.object file)) = some o ↔ Options.Layers file preset o := by
  have hrows : preset.rows.keys.Nodup := by simp [rows, Table.keys]
  obtain ⟨given, hrecord, hgiven⟩ := exists_record?_eq (nodup_keys_overlayEntries hrows file) fields
  have hencode : preset.encode = .object preset.rows := rfl
  rw [Options.decode?, hencode, overlay_object_object, hrecord, Option.bind_eq_bind, Option.bind_some]
  have hplain {α : Type} (name : String) (hname : name ∈ fields) {read : Json → Option α} {old : Json}
      (hbase : preset.rows.lookup name = some old) (hold : ∀ entries, old ≠ .object entries) {before : α}
      (hread : read old = some before) (default after : α) :
      withDefault? given name default read = some after ↔ Layered file name read before after :=
    withDefault?_overlaid h hgiven name hname hread hbase hold default after
  have hstring (name : String) (hname : name ∈ fields) {before : String}
      (hbase : preset.rows.lookup name = some (.string before)) (default after : String) :=
    withDefault?_string_overlaid h hgiven name hname hbase default after
  have hlist : list? string? (.array (preset.imports.map .string)) = some preset.imports :=
    list?_map .string fun _ _ => rfl
  have hmode : Named.decode? (Named.encode preset.imageMode) = some preset.imageMode := by
    cases preset.imageMode <;> rfl
  have hformat : Named.decode? (Named.encode preset.imageFormat) = some preset.imageFormat := by
    cases preset.imageFormat <;> rfl
  have hscale : float? (float preset.imageScale) = some preset.imageScale := rfl
  have hstrict : bool? (.bool preset.strictMarkup) = some preset.strictMarkup := rfl
  have houtDir := hstring "outDir" (by simp [fields]) rfl
  have hclassPrefix := hstring "classPrefix" (by simp [fields]) rfl
  have hdelimiters := withDefault?_delimiters ((hgiven "delimiters" (by simp [fields])).trans
    (lookup_overlayEntries h preset.rows "delimiters")) hdelimiters
  have hstyleDelimiter := hstring "styleDescriptionDelimiter" (by simp [fields]) rfl
  have himports := hplain "imports" (by simp [fields]) rfl (fun _ h => by cases h) hlist
  have hdecorator := hstring "decorator" (by simp [fields]) rfl
  have hinstanceSuffix := hstring "instanceSuffix" (by simp [fields]) rfl
  have hfileSuffix := hstring "fileSuffix" (by simp [fields]) rfl
  have himageMode := hplain "imageMode" (by simp [fields]) rfl (fun _ h => by cases h) hmode
  have himageFormat := hplain "imageFormat" (by simp [fields]) rfl (fun _ h => by cases h) hformat
  have himageScale := hplain "imageScale" (by simp [fields]) rfl (fun _ h => by cases h) hscale
  have himageDir := hstring "imageDir" (by simp [fields]) rfl
  have himageUrlPrefix := hstring "imageUrlPrefix" (by simp [fields]) rfl
  have hstrictMarkup := hplain "strictMarkup" (by simp [fields]) rfl (fun _ h => by cases h) hstrict
  constructor
  · intro hread
    obtain ⟨outDir, houtDir', hread⟩ := Option.bind_eq_some_iff.1 hread
    obtain ⟨classPrefix, hclassPrefix', hread⟩ := Option.bind_eq_some_iff.1 hread
    obtain ⟨delimiters, hdelimiters', hread⟩ := Option.bind_eq_some_iff.1 hread
    obtain ⟨styleDelimiter, hstyleDelimiter', hread⟩ := Option.bind_eq_some_iff.1 hread
    obtain ⟨imports, himports', hread⟩ := Option.bind_eq_some_iff.1 hread
    obtain ⟨decorator, hdecorator', hread⟩ := Option.bind_eq_some_iff.1 hread
    obtain ⟨instanceSuffix, hinstanceSuffix', hread⟩ := Option.bind_eq_some_iff.1 hread
    obtain ⟨fileSuffix, hfileSuffix', hread⟩ := Option.bind_eq_some_iff.1 hread
    obtain ⟨imageMode, himageMode', hread⟩ := Option.bind_eq_some_iff.1 hread
    obtain ⟨imageFormat, himageFormat', hread⟩ := Option.bind_eq_some_iff.1 hread
    obtain ⟨imageScale, himageScale', hread⟩ := Option.bind_eq_some_iff.1 hread
    obtain ⟨imageDir, himageDir', hread⟩ := Option.bind_eq_some_iff.1 hread
    obtain ⟨imageUrlPrefix, himageUrlPrefix', hread⟩ := Option.bind_eq_some_iff.1 hread
    obtain ⟨strictMarkup, hstrictMarkup', hread⟩ := Option.bind_eq_some_iff.1 hread
    cases hread
    exact ⟨(houtDir _ _).1 houtDir', (hclassPrefix _ _).1 hclassPrefix', (hdelimiters _ _).1 hdelimiters',
      (hstyleDelimiter _ _).1 hstyleDelimiter', (himports _ _).1 himports', (hdecorator _ _).1 hdecorator',
      (hinstanceSuffix _ _).1 hinstanceSuffix', (hfileSuffix _ _).1 hfileSuffix', (himageMode _ _).1 himageMode',
      (himageFormat _ _).1 himageFormat', (himageScale _ _).1 himageScale', (himageDir _ _).1 himageDir',
      (himageUrlPrefix _ _).1 himageUrlPrefix', (hstrictMarkup _ _).1 hstrictMarkup'⟩
  · intro ho
    refine Option.bind_eq_some_iff.2 ⟨_, (houtDir _ _).2 ho.outDir, ?_⟩
    refine Option.bind_eq_some_iff.2 ⟨_, (hclassPrefix _ _).2 ho.classPrefix, ?_⟩
    refine Option.bind_eq_some_iff.2 ⟨_, (hdelimiters _ _).2 ho.delimiters, ?_⟩
    refine Option.bind_eq_some_iff.2 ⟨_, (hstyleDelimiter _ _).2 ho.styleDelimiter, ?_⟩
    refine Option.bind_eq_some_iff.2 ⟨_, (himports _ _).2 ho.imports, ?_⟩
    refine Option.bind_eq_some_iff.2 ⟨_, (hdecorator _ _).2 ho.decorator, ?_⟩
    refine Option.bind_eq_some_iff.2 ⟨_, (hinstanceSuffix _ _).2 ho.instanceSuffix, ?_⟩
    refine Option.bind_eq_some_iff.2 ⟨_, (hfileSuffix _ _).2 ho.fileSuffix, ?_⟩
    refine Option.bind_eq_some_iff.2 ⟨_, (himageMode _ _).2 ho.imageMode, ?_⟩
    refine Option.bind_eq_some_iff.2 ⟨_, (himageFormat _ _).2 ho.imageFormat, ?_⟩
    refine Option.bind_eq_some_iff.2 ⟨_, (himageScale _ _).2 ho.imageScale, ?_⟩
    refine Option.bind_eq_some_iff.2 ⟨_, (himageDir _ _).2 ho.imageDir, ?_⟩
    refine Option.bind_eq_some_iff.2 ⟨_, (himageUrlPrefix _ _).2 ho.imageUrlPrefix, ?_⟩
    refine Option.bind_eq_some_iff.2 ⟨_, (hstrictMarkup _ _).2 ho.strictMarkup, ?_⟩
    rfl

end Decoding

namespace CommandLine

variable {a : Arguments} {path : String} {t : FileTable} {body : Bytes}

theorem run_loadOptions (hpath : a.options = some path) (hbody : t.read path = .ok body) :
    ((loadOptions FileTable.asFiles a).run.run t).1 =
      (do
        let preset ← (Options.ofPreset a.preset).mapError fun e => Failure.design (.config e)
        let layered ← layerOptions path preset body
        let o := { layered with outDir := a.out.getD layered.outDir }
        o.validate.mapError fun e => Failure.design (.config e)
        return o) := by
  have hread : (FileTable.asFiles.read path).run t = (.ok body, t) := by
    rw [← hbody]
    rfl
  rw [loadOptions, hpath]
  dsimp only
  rw [run_liftM_bind]
  cases (Options.ofPreset a.preset).mapError fun e => Failure.design (.config e) with
  | error e => rfl
  | ok preset =>
      dsimp only
      rw [run_orFail, hread]
      dsimp only
      rw [run_liftM_bind]
      change _ = layerOptions path preset body >>= _
      cases layerOptions path preset body with
      | error e => rfl
      | ok layered =>
          dsimp only
          rw [run_liftM_bind]
          change _ = (Except.mapError _ { layered with outDir := a.out.getD layered.outDir : Options }.validate >>= _)
          cases { layered with outDir := a.out.getD layered.outDir : Options }.validate <;> rfl

section Results

variable {ε ε' α β : Type}

theorem mapError_eq_ok {f : ε → ε'} {x : Except ε α} {v : α} : x.mapError f = .ok v ↔ x = .ok v := by
  cases x <;> simp [Except.mapError]

theorem bind_eq_ok {x : Except ε α} {f : α → Except ε β} {v : β} : x >>= f = .ok v ↔ ∃ u, x = .ok u ∧ f u = .ok v := by
  cases x <;> simp [bind, Except.bind]

end Results

theorem layerOptions_eq_ok_iff {layer : Json} {file : Table Json}
    (hlayer : (Bytes.text? body).bind Json.parse? = some layer) (hobject : layer.distinct = .object file)
    (hdelimiters : ∀ json ∈ file.lookup "delimiters", ∃ entries, json = .object entries) (preset layered : Options) :
    layerOptions path preset body = .ok layered ↔ Options.Layers file preset layered := by
  obtain ⟨given, rfl⟩ : ∃ given, layer = .object given := by
    cases layer with
    | object given => exact ⟨given, rfl⟩
    | _ => cases hobject
  obtain rfl : distinctTable given = file := by
    rw [distinct_object] at hobject
    exact Json.object.inj hobject
  -- the names of the delimiters are distinct because the value is an entry of a value whose names are
  have hentries : ∀ json ∈ (distinctTable given).lookup "delimiters",
      ∃ entries : Table Json, json = .object entries ∧ entries.keys.Nodup := by
    intro json hjson
    obtain ⟨entries, rfl⟩ := hdelimiters json hjson
    obtain ⟨⟨name, value⟩, -, heq⟩ := exists_of_mem_distinctTable (Table.mem_of_lookup hjson)
    obtain ⟨-, hvalue⟩ := Prod.mk.inj heq
    cases value with
    | object below =>
        rw [distinct_object] at hvalue
        exact ⟨_, hvalue, nodup_keys_distinctTable below⟩
    | _ => cases hvalue
  rw [← Options.decode?_overlay (nodup_keys_distinctTable given) hentries, layerOptions, hlayer]
  dsimp only
  rw [distinct_object]
  cases Options.decode? (overlay preset.encode (.object (distinctTable given))) <;> simp

/-- The options of a run are field by field those of the file, laid over the preset. The directory of the source files
may be given on the command line. They are valid, and a file that leads to options that are not ends the run. -/
theorem loadOptions_eq_ok_iff {layer : Json} {file : Table Json} (hpath : a.options = some path)
    (hbody : t.read path = .ok body) (hlayer : (Bytes.text? body).bind Json.parse? = some layer)
    (hobject : layer.distinct = .object file)
    (hdelimiters : ∀ json ∈ file.lookup "delimiters", ∃ entries, json = .object entries) (o : Options) :
    (((loadOptions FileTable.asFiles a).run.run t).1 = .ok o ↔
      o.validate = .ok () ∧ ∃ preset layered, Options.ofPreset a.preset = .ok preset ∧
        Options.Layers file preset layered ∧ o = { layered with outDir := a.out.getD layered.outDir }) ∧
    (∀ base upper : Json, overlay (overlay base upper.distinct) upper.distinct = overlay base upper.distinct) ∧
    ∀ (base upper : Json) (names : List String), ¬upper.distinct.Mentions names →
      (overlay base upper.distinct).at? names = base.at? names := by
  refine ⟨?_, overlay_overlay, fun base upper names h => at?_overlay h base⟩
  rw [run_loadOptions hpath hbody]
  simp only [bind_eq_ok, mapError_eq_ok, layerOptions_eq_ok_iff hlayer hobject hdelimiters]
  constructor
  · rintro ⟨preset, hpreset, layered, hlayered, u, hvalid, ho⟩
    obtain rfl := Except.ok.inj ho
    exact ⟨hvalid, preset, layered, hpreset, hlayered, rfl⟩
  · rintro ⟨hvalid, preset, layered, hpreset, hlayered, rfl⟩
    exact ⟨preset, hpreset, layered, hlayered, (), hvalid, rfl⟩

def prefixedFile : Bytes :=
  Bytes.ofString "\x7b\"classPrefix\":\"ui-\",\"outDir\":\"ignored\",\"delimiters\":\x7b\"pair\":\";\"\x7d\x7d"

theorem loadOptions_prefixedFile :
    ((loadOptions FileTable.asFiles ⟨"design.json", none, some "generated", "mobx", some "options.json"⟩).run.run
        [("options.json", prefixedFile)]).1 =
      .ok { imports := [Options.mobxImport], decorator := "observer", classPrefix := "ui-", outDir := "generated",
            delimiters := { pair := ";" } } := by
  have hread : FileTable.read "options.json" [("options.json", prefixedFile)] = .ok prefixedFile := by decide +kernel
  have hlayer : (Bytes.text? prefixedFile).bind Json.parse? =
      some (.object [("classPrefix", .string "ui-"), ("outDir", .string "ignored"),
        ("delimiters", .object [("pair", .string ";")])]) := by
    have htext : Bytes.text? prefixedFile = some (Json.render (.object [("classPrefix", .string "ui-"),
        ("outDir", .string "ignored"), ("delimiters", .object [("pair", .string ";")])])) := by
      decide +kernel
    rw [htext, Option.bind_some, parse?_render]
    · rfl
    · simp [IsPlain, AreEntriesPlain]
    · simp [floats, floatsOfEntries]
  refine (loadOptions_eq_ok_iff rfl hread hlayer rfl ?_ _).1.2 ⟨by decide, _,
    { imports := [Options.mobxImport], decorator := "observer", classPrefix := "ui-", outDir := "ignored",
      delimiters := { pair := ";" } }, rfl, ?_, rfl⟩
  · rintro _ ⟨⟩
    exact ⟨_, rfl⟩
  · constructor
    case delimiters => constructor <;> rfl
    all_goals rfl

end CommandLine

end DesignCompiler

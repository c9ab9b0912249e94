import DesignCompiler.Proofs.Bodies
import DesignCompiler.Proofs.Mirroring
import DesignCompiler.Proofs.Paths

namespace DesignCompiler

open Step

/-- Letters, digits and underscores, at least one of them, and no digit in front. -/
structure IsIdentifier (s : List Char) : Prop where
  ne_nil : s ≠ []
  isWordChar : ∀ c ∈ s, Options.isWordChar c
  head : s.head?.any Char.isDigit = false

instance (s : List Char) : Decidable (IsIdentifier s) :=
  decidable_of_iff (s ≠ [] ∧ s.all Options.isWordChar ∧ s.head?.any Char.isDigit = false)
    ⟨fun ⟨hne, hword, hhead⟩ => ⟨hne, List.all_eq_true.1 hword, hhead⟩,
      fun ⟨hne, hword, hhead⟩ => ⟨hne, List.all_eq_true.2 hword, hhead⟩⟩

theorem isIdentifier_iff {s : List Char} (h : ∀ c ∈ s, Options.isWordChar c) :
    IsIdentifier s ↔ ∃ c, s.head? = some c ∧ c.isDigit = false := by
  constructor
  · rintro ⟨hne, -, hhead⟩
    obtain ⟨c, t, rfl⟩ := List.exists_cons_of_ne_nil hne
    exact ⟨c, rfl, hhead⟩
  · rintro ⟨c, hc, hdigit⟩
    refine ⟨?_, h, ?_⟩
    · rintro rfl
      cases hc
    · rw [hc]
      exact hdigit

theorem isIdentifier_append {s t : List Char} (hs : ∀ c ∈ s, Options.isWordChar c)
    (ht : ∀ c ∈ t, Options.isWordChar c) :
    IsIdentifier (s ++ t) ↔ IsIdentifier s ∨ s = [] ∧ IsIdentifier t := by
  have hst : ∀ c ∈ s ++ t, Options.isWordChar c := List.forall_mem_append.2 ⟨hs, ht⟩
  rw [isIdentifier_iff hst, isIdentifier_iff hs, isIdentifier_iff ht]
  cases s <;> simp

def beforeSlot (d : Delimiters) (name : String) : List Char :=
  ((Text.cut? d.slot.toList name.toList).map Prod.fst).getD name.toList

/-- Before the slot mark there is a letter or an underscore, and no digit before it. -/
def IsNameable (d : Delimiters) (name : String) : Prop :=
  ∃ c, (beforeSlot d name).find? Options.isWordChar = some c ∧ c.isDigit = false

theorem toList_componentName (d : Delimiters) (name : String) :
    (componentName d name).toList = (beforeSlot d name).filter Options.isWordChar := by
  rw [componentName, String.toList_ofList, stripNonWord, beforeSlot]

theorem isWordChar_of_mem_componentName {d : Delimiters} {name : String} :
    ∀ c ∈ (componentName d name).toList, Options.isWordChar c := by
  rw [toList_componentName]
  exact fun c hc => (List.mem_filter.1 hc).2

theorem isIdentifier_componentName (d : Delimiters) (name : String) :
    IsIdentifier (componentName d name).toList ↔ IsNameable d name := by
  rw [isIdentifier_iff isWordChar_of_mem_componentName, toList_componentName, List.head?_filter, IsNameable]

namespace Output

/-- The names that the two texts of a component import and export are identifiers. -/
structure ComponentText.IsWellNamed (o : Options) (t : ComponentText) : Prop where
  source : ∃ (imports : List Import) (name rest : String),
    (∀ i ∈ imports, IsIdentifier i.name.toList) ∧ IsIdentifier name.toList ∧
      t.source o = "\n".intercalate (reactImport :: o.imports ++
        imports.map (fun i => importLine i.name i.fileName) ++ [""]) ++
          "\nexport const " ++ name ++ ": React.FC<" ++ rest
  shell : ∃ instanceName file name : String, IsIdentifier instanceName.toList ∧ IsIdentifier name.toList ∧
    t.shell o = reactImport ++ "\n" ++ importLine instanceName file ++ "\n\nexport const " ++ name ++
      ": typeof " ++ instanceName ++ " = props => <" ++ instanceName ++ " \x7b...props\x7d />;\n"

theorem ComponentText.exists_body_eq (t : ComponentText) (o : Options) :
    ∃ rest, t.body o = "export const " ++ t.instanceName ++ ": React.FC<" ++ rest := by
  have hgrow {s u front : String} (h : ∃ rest, s = front ++ rest) : ∃ rest, s ++ u = front ++ rest := by
    obtain ⟨rest, rfl⟩ := h
    exact ⟨rest ++ u, String.append_assoc⟩
  unfold body
  iterate 10 refine hgrow ?_
  exact ⟨"", String.append_empty.symm⟩

theorem ComponentText.isWellNamed {t : ComponentText} (hname : IsIdentifier t.name.toList)
    (hinstance : IsIdentifier t.instanceName.toList) (himports : ∀ i ∈ t.imports, IsIdentifier i.name.toList)
    (o : Options) : t.IsWellNamed o where
  source := by
    have hexport : "\nexport const " = "\n" ++ "export const " := by decide
    obtain ⟨rest, hrest⟩ := t.exists_body_eq o
    refine ⟨t.imports, t.instanceName, rest, himports, hinstance, ?_⟩
    rw [ComponentText.source, hrest, header, hexport]
    simp only [String.append_assoc]
  shell := ⟨t.instanceName, t.generatedStem o, t.name, hinstance, hname, rfl⟩

end Output

namespace Compiler

variable {c : Compiler} {canvas : SceneNode} {out : Compilation}

theorem validate_of_compileCanvas (h : (c.compileCanvas canvas).run.CanEnd (.ok out)) :
    c.options.validate = .ok () := by
  obtain ⟨u, hcheck, -⟩ := Run.bind_eq_ok h
  have hend : (Conversation.done (c.options.validate.mapError DesignError.config)).CanEnd (.ok u) := hcheck
  cases hvalid : c.options.validate with
  | ok _ => rfl
  | error e =>
      rw [hvalid] at hend
      cases hend

theorem isDrawn_of_compileCanvas (h : (c.compileCanvas canvas).run.CanEnd (.ok out)) :
    ∃ ctx : Context, ctx.forest = (NormalizedScene.ofCanvas c.options canvas).forest ∧
      ctx.options = c.options ∧ ∀ d ∈ out.components, d.IsDrawn ctx := by
  obtain ⟨descriptions, resources, r, hbuilds, hcomponents, -⟩ := exists_registry_of_compileCanvas h
  have hdrawn := Registry.drawn_of_builds (fun e he => by cases he) hbuilds
  refine ⟨⟨_, _, resources, descriptions, c.plugins⟩, rfl, rfl, fun d hd => ?_⟩
  rw [hcomponents] at hd
  obtain ⟨e, he, rfl⟩ := List.mem_map.1 hd
  exact hdrawn e he

theorem exists_layer_of_compileCanvas (h : (c.compileCanvas canvas).run.CanEnd (.ok out)) :
    ∀ d ∈ out.components, ∃ l, canvas.keptLayers[d.root]? = some l ∧
      d.name = componentName c.options.delimiters l.node.attrs.name := by
  obtain ⟨ctx, hforest, hoptions, hdrawn⟩ := isDrawn_of_compileCanvas h
  intro d hd
  obtain ⟨node, -, -, found, -, hbody⟩ := hdrawn d hd
  rw [hforest] at found
  have hlt : d.root < canvas.keptLayers.length := by
    rw [← (NormalizedScene.lists_ofCanvas c.options canvas).size_eq]
    exact (Array.getElem?_eq_some_iff.1 found).1
  obtain ⟨node', found', hnode⟩ :=
    NormalizedScene.isNode_of_getElem? (o := c.options) (List.getElem?_eq_getElem hlt)
  obtain rfl : node' = node := Option.some.inj (found'.symm.trans found)
  refine ⟨_, List.getElem?_eq_getElem hlt, ?_⟩
  rw [← hnode.attrs_eq, ← hoptions]
  exact congrArg Component.name hbody

theorem exists_component_of_import (h : (c.compileCanvas canvas).run.CanEnd (.ok out)) :
    ∀ d ∈ out.components, ∀ i ∈ d.scope.imports.values, ∃ e ∈ out.components, i.name = e.name := by
  intro d hd i hi
  obtain ⟨before, after, hsplit⟩ := List.append_of_mem hd
  obtain ⟨entry, hentry, rfl⟩ := List.mem_map.1 hi
  obtain ⟨e, he, hname, hsame, -⟩ :=
    (isLayered_of_compileCanvas h).imports_before before d after hsplit entry hentry
  refine ⟨e, ?_, hsame.trans hname.symm⟩
  rw [hsplit]
  exact List.mem_append_left _ he

end Compiler

/-- The name of a component is an identifier just if the name of its layer gives one, and its instance is one
in the same case, or if the suffix stands alone. Once the names of all components are identifiers, so are all
the names that their texts import and export. -/
theorem identifiers_iff {c : Compiler} {canvas : SceneNode} {out : Compilation}
    (h : (c.compileCanvas canvas).run.CanEnd (.ok out)) :
    (∀ d ∈ out.components, ∃ l, canvas.keptLayers[d.root]? = some l ∧
      d.name = componentName c.options.delimiters l.node.attrs.name ∧
      (∀ ch ∈ d.name.toList, Options.isWordChar ch) ∧
      (∀ ch ∈ d.instanceName.toList, Options.isWordChar ch) ∧
      (IsIdentifier d.name.toList ↔ IsNameable c.options.delimiters l.node.attrs.name) ∧
      (IsIdentifier d.instanceName.toList ↔ IsNameable c.options.delimiters l.node.attrs.name ∨
        d.name = "" ∧ IsIdentifier c.options.instanceSuffix.toList)) ∧
    ((∀ d ∈ out.components, IsIdentifier d.name.toList) →
      ∀ d ∈ out.components, (Output.ComponentText.ofComponent d).IsWellNamed c.options) := by
  have hsuffix : ∀ ch ∈ c.options.instanceSuffix.toList, Options.isWordChar ch :=
    List.all_eq_true.1 (Options.validate_eq_ok_iff.1 (c.validate_of_compileCanvas h)).2.2.2.2.2.1
  obtain ⟨hnamed, -⟩ := c.named_of_compileCanvas h
  have hinstance : ∀ d ∈ out.components,
      d.instanceName.toList = d.name.toList ++ c.options.instanceSuffix.toList := by
    intro d hd
    rw [(hnamed d hd).instance_eq, componentInstance, String.toList_append]
  constructor
  · intro d hd
    obtain ⟨l, hl, hname⟩ := c.exists_layer_of_compileCanvas h d hd
    have hword : ∀ ch ∈ d.name.toList, Options.isWordChar ch := hname ▸ isWordChar_of_mem_componentName
    have hiff : IsIdentifier d.name.toList ↔ IsNameable c.options.delimiters l.node.attrs.name := by
      rw [hname, isIdentifier_componentName]
    refine ⟨l, hl, hname, hword, ?_, hiff, ?_⟩
    · rw [hinstance d hd]
      exact List.forall_mem_append.2 ⟨hword, hsuffix⟩
    · rw [hinstance d hd, isIdentifier_append hword hsuffix, hiff, String.toList_eq_nil_iff]
  · intro hnames d hd
    have hword := (hnames d hd).isWordChar
    refine Output.ComponentText.isWellNamed (hnames d hd) ?_ ?_ c.options
    · change IsIdentifier d.instanceName.toList
      rw [hinstance d hd, isIdentifier_append hword hsuffix]
      exact .inl (hnames d hd)
    · intro i hi
      obtain ⟨e, he, hname⟩ := c.exists_component_of_import h d hd i hi
      rw [hname]
      exact hnames e he

theorem identifiers_cardOverBadge :
    ∃ out, (plainCompiler.compileCanvas cardOverBadge).run.CanEnd (.ok out) ∧
      out.components.map Component.name = ["Badge", "Card"] ∧
      ∀ d ∈ out.components, (Output.ComponentText.ofComponent d).IsWellNamed {} := by
  obtain ⟨out, hend, hnames⟩ := Conversation.exists_canEnd_of_run names_cardOverBadge
  refine ⟨out, hend, hnames, (identifiers_iff hend).2 fun d hd => ?_⟩
  have hname : d.name ∈ ["Badge", "Card"] := hnames ▸ List.mem_map_of_mem hd
  have hidentifiers : ∀ name ∈ ["Badge", "Card"], IsIdentifier name.toList := by decide
  exact hidentifiers d.name hname

def oddlyNamed : SceneNode where
  attrs := { id := "0:0", name := "Page", kind := .canvas }
  children := [{ attrs := { id := "1", name := "#1Card" } }, { attrs := { id := "2", name := "#→" } }]

theorem names_oddlyNamed :
    ((plainCompiler.compileCanvas oddlyNamed).run.run bareSource).2.toOption.map
      (fun out => out.components.map fun d => (d.name, d.instanceName)) =
    some [("1Card", "1CardGenerated"), ("", "Generated")] := by
  decide +kernel

/-- Digits in front are kept, and so is the name of which nothing is left. -/
theorem not_forall_isIdentifier :
    ¬ ∀ (c : Compiler) (canvas : SceneNode) (out : Compilation),
      (c.compileCanvas canvas).run.CanEnd (.ok out) →
        ∀ d ∈ out.components, IsIdentifier d.name.toList ∧ IsIdentifier d.instanceName.toList := by
  intro h
  obtain ⟨out, hend, hnames⟩ := Conversation.exists_canEnd_of_run names_oddlyNamed
  have hmem : ("1Card", "1CardGenerated") ∈ out.components.map fun d => (d.name, d.instanceName) := by
    rw [hnames]
    exact List.mem_cons_self
  obtain ⟨d, hd, heq⟩ := List.mem_map.1 hmem
  have hname : d.name = "1Card" := congrArg Prod.fst heq
  have hidentifier := (h _ _ out hend d hd).1
  rw [hname] at hidentifier
  exact absurd hidentifier (by decide)

end DesignCompiler

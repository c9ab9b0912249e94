import DesignCompiler.Output.Compile
import DesignCompiler.Proofs.Imports
import DesignCompiler.Proofs.Links

namespace DesignCompiler

open Step Registry Relation

def NodeTree.HasRoot (attrs : NodeAttributes) (t : NodeTree) : Prop :=
  ∃ i ∈ t.roots, ∃ n, t.get? i = some n ∧ n.attrs = attrs

namespace NodeTree

variable {t : NodeTree} {a : NodeAttributes}

theorem HasRoot.push (h : t.HasRoot a) (attrs : NodeAttributes) (kind : NodeType)
    (constraints : Constraints) (params : Params) (parent : Option Nat) :
    (t.push attrs kind constraints params parent).HasRoot a := by
  obtain ⟨i, hi, n, hn, ha⟩ := h
  have hold : ∀ node, (t.nodes.push node)[i]? = some n := by
    intro node
    rw [Array.getElem?_push, if_neg, ← NodeTree.get?]
    · exact hn
    · exact Nat.ne_of_lt (Array.getElem?_eq_some_iff.1 hn).1
  cases parent with
  | none => exact ⟨i, List.mem_append_left _ hi, n, hold _, ha⟩
  | some p =>
      refine ⟨i, hi, ?_⟩
      simp only [NodeTree.push, get?, Array.getElem?_modify, hold]
      split
      · exact ⟨_, rfl, ha⟩
      · exact ⟨n, rfl, ha⟩

theorem HasRoot.setMask (h : t.HasRoot a) (target mask : Nat) : (t.setMask target mask).HasRoot a := by
  obtain ⟨i, hi, n, hn, ha⟩ := h
  have hn' : t.nodes[i]? = some n := hn
  unfold NodeTree.setMask
  split
  · refine ⟨i, hi, ?_⟩
    simp only [get?, Array.getElem?_modify, hn']
    split <;> split <;> exact ⟨_, rfl, ha⟩
  · exact ⟨i, hi, n, hn, ha⟩

theorem hasRoot_push (t : NodeTree) (attrs : NodeAttributes) (kind : NodeType)
    (constraints : Constraints) (params : Params) :
    (t.push attrs kind constraints params none).HasRoot attrs := by
  refine ⟨t.size, by simp [NodeTree.push], ?_⟩
  simp [NodeTree.push, get?, size]

end NodeTree

theorem Draft.kept_hasRoot (a : NodeAttributes) : Draft.Kept (NodeTree.HasRoot a) :=
  ⟨NodeTree.HasRoot.push, NodeTree.HasRoot.setMask⟩

theorem Draft.hasRoot_addNode (o : Options) (node : SceneNode) (d : Draft) :
    (Draft.addNode o none node d).tree.HasRoot node.attrs := by
  obtain ⟨attrs, children⟩ := node
  exact (Draft.kept_hasRoot attrs).of_add (NodeTree.hasRoot_push ..)

theorem Draft.hasRoot_addComponents (o : Options) {nodes : List SceneNode} {node : SceneNode}
    (h : node ∈ nodes) (visible : node.attrs.visible) (root : node.attrs.isComponentRoot) (d : Draft) :
    (Draft.addComponents o nodes d).tree.HasRoot node.attrs := by
  induction nodes generalizing d with
  | nil => cases h
  | cons first rest ih =>
      rw [Draft.addComponents]
      rcases List.mem_cons.1 h with rfl | h
      · refine (Draft.kept_hasRoot node.attrs).addComponents o rest _ ?_
        rw [visible, root]
        exact Draft.hasRoot_addNode o node d
      · exact ih h _

variable {ctx : Context}

theorem exec_discard_eq_ok {σ α : Type} {x : Step σ α} {s t : σ} {u : Unit}
    (h : exec (discard x) s = (.ok u, t)) : ∃ a, exec x s = (.ok a, t) := by
  rw [discard, map_const, Function.comp_apply, map_eq_pure_bind] at h
  obtain ⟨a, t', ha, ht⟩ := exec_bind_eq_ok.1 h
  cases ht
  exact ⟨a, ha⟩

theorem layered_of_builds {roots : List Nat} {r s : Registry}
    (hr : r.Sound ctx.options.instanceSuffix) (hl : r.Layered)
    (h : exec (roots.forM fun i => discard (buildComponent ctx i)) r = (.ok (), s)) :
    s.Sound ctx.options.instanceSuffix ∧ s.Layered ∧ r.components <+: s.components ∧
      ∀ i ∈ roots, ∀ node, ctx.forest.get? i = some node → ctx.nameOf node ∈ s.components.keys := by
  induction roots generalizing r with
  | nil =>
      cases h
      exact ⟨hr, hl, List.prefix_rfl, by simp⟩
  | cons i roots ih =>
      obtain ⟨u, t, hbuild, hrest⟩ := exec_bind_eq_ok.1 h
      obtain ⟨c, hbuild⟩ := exec_discard_eq_ok hbuild
      obtain ⟨node, found, -⟩ := lookup_of_build (congrArg Prod.fst hbuild)
      obtain ⟨ht, hlt, hrt, hmem, -⟩ := (wires_calls ctx).2 i node found r c t hr hl hbuild
      obtain ⟨hs, hls, hts, hroots⟩ := ih ht hlt hrest
      refine ⟨hs, hls, hrt.trans hts, ?_⟩
      intro j hj node' found'
      rcases List.mem_cons.1 hj with rfl | hj
      · obtain rfl := Option.some.inj (found.symm.trans found')
        exact List.mem_map_of_mem (f := Prod.fst) (hts.subset hmem)
      · exact hroots j hj node' found'

namespace Conversation

variable {α β : Type}

/-- Some answers lead to a result, be they those of one source or not. -/
inductive CanEnd : Conversation α → α → Prop
  | done (a : α) : CanEnd (.done a) a
  | ask {q : Question} {next : Except FetchError q.Answer → Conversation α} {a : α}
      (answer : Except FetchError q.Answer) (h : CanEnd (next answer) a) : CanEnd (.ask q next) a

theorem canEnd_run (source : Source) (c : Conversation α) : c.CanEnd (c.run source).2 := by
  induction c with
  | done a => exact .done a
  | ask q next ih => exact .ask (source q) (ih _)

theorem CanEnd.of_bind {c : Conversation α} {f : α → Conversation β} {b : β} (h : (c.bind f).CanEnd b) :
    ∃ a, c.CanEnd a ∧ (f a).CanEnd b := by
  induction c with
  | done a => exact ⟨a, .done a, h⟩
  | ask q next ih =>
      cases h with
      | ask answer h =>
          obtain ⟨a, ha, hb⟩ := ih answer h
          exact ⟨a, .ask answer ha, hb⟩

end Conversation

/-- What is seen of the result of one run is true of a result that the conversation can have. -/
theorem Conversation.exists_canEnd_of_run {ε α γ : Type} {c : Conversation (Except ε α)} {source : Source}
    {f : α → γ} {b : γ} (h : (c.run source).2.toOption.map f = some b) : ∃ a, c.CanEnd (.ok a) ∧ f a = b := by
  have hend := canEnd_run source c
  rcases hout : (c.run source).2 with e | a <;> rw [hout] at h hend
  · cases h
  · exact ⟨a, hend, Option.some.inj h⟩

theorem Run.bind_eq_ok {α β : Type} {x : Run α} {f : α → Run β} {b : β}
    (h : (x >>= f).run.CanEnd (.ok b)) : ∃ a, x.run.CanEnd (.ok a) ∧ (f a).run.CanEnd (.ok b) := by
  rw [ExceptT.run_bind] at h
  obtain ⟨e | a, ha, hb⟩ := Conversation.CanEnd.of_bind h
  · cases hb
  · exact ⟨a, ha, hb⟩

theorem Compiler.exists_emit_of_compileCanvas {c : Compiler} {canvas : SceneNode} {out : Compilation}
    (h : (c.compileCanvas canvas).run.CanEnd (.ok out)) :
    ∃ descriptions resources,
      c.emit (.ofCanvas c.options canvas) descriptions resources = .ok out := by
  obtain ⟨-, -, h⟩ := Run.bind_eq_ok h
  obtain ⟨descriptions, -, h⟩ := Run.bind_eq_ok h
  obtain ⟨resources, -, h⟩ := Run.bind_eq_ok h
  cases hemit : c.emit (.ofCanvas c.options canvas) descriptions resources with
  | error e =>
      rw [hemit] at h
      cases h
  | ok out' =>
      rw [hemit] at h
      cases h
      exact ⟨descriptions, resources, hemit⟩

namespace Compilation

def Imports (out : Compilation) (name other : String) : Prop :=
  ∃ c ∈ out.components, c.name = name ∧ other ∈ c.scope.imports.keys

/-- The components of a run stand in the order of their imports, which stay inside of the run. -/
structure IsLayered (o : Options) (out : Compilation) : Prop where
  nodup_names : (out.components.map Component.name).Nodup
  imports_before : ∀ before c after, out.components = before ++ c :: after → ∀ e ∈ c.scope.imports,
    ∃ d ∈ before, d.name = e.1 ∧ e.2.name = e.1 ∧ d.fileName = e.2.fileName ∧
      ⟨Files.join o.outDir (e.2.fileName ++ ".tsx"), (Output.ComponentText.ofComponent d).shell o,
        false⟩ ∈ out.files
  acyclic : ∀ name, ¬TransGen out.Imports name name
  shown_imported : ∀ c ∈ out.components, c.body.components ⊆ c.scope.imports.keys

theorem acyclic_of_imports_before {out : Compilation} (hn : (out.components.map Component.name).Nodup)
    (hi : ∀ before c after, out.components = before ++ c :: after → ∀ e ∈ c.scope.imports,
      ∃ d ∈ before, d.name = e.1) (name : String) : ¬TransGen out.Imports name name := by
  -- Along an import the position of the name falls.
  have hlt : ∀ a b, out.Imports a b → (out.components.map Component.name).idxOf b <
      (out.components.map Component.name).idxOf a := by
    rintro a b ⟨c, hc, rfl, hb⟩
    obtain ⟨before, after, hsplit⟩ := List.append_of_mem hc
    obtain ⟨e, he, rfl⟩ := List.mem_map.1 hb
    obtain ⟨d, hd, hname⟩ := hi before c after hsplit e he
    have hbefore : e.1 ∈ before.map Component.name := hname ▸ List.mem_map_of_mem hd
    rw [hsplit, List.map_append, List.map_cons] at hn ⊢
    have hnot : c.name ∉ before.map Component.name := by
      intro hc
      exact (List.nodup_append.1 hn).2.2 _ hc _ List.mem_cons_self rfl
    rw [List.idxOf_append_of_mem hbefore, List.idxOf_append_of_notMem hnot, List.idxOf_cons_self]
    exact Nat.lt_of_lt_of_le (List.idxOf_lt_length_of_mem hbefore) (Nat.le_add_right ..)
  have htrans : ∀ a b, TransGen out.Imports a b → (out.components.map Component.name).idxOf b <
      (out.components.map Component.name).idxOf a := by
    intro a b h
    induction h with
    | single h => exact hlt _ _ h
    | tail _ h ih => exact Nat.lt_trans (hlt _ _ h) ih
  exact fun h => Nat.lt_irrefl _ (htrans _ _ h)

end Compilation

theorem Registry.Sound.map_name {suffix : String} {r : Registry} (h : r.Sound suffix) :
    r.components.values.map Component.name = r.components.keys := by
  rw [Table.values, Table.keys, List.map_map]
  exact List.map_congr_left fun e he => (h.named e he).name_eq

theorem Component.shell_mem_files (c : Component) (o : Options) :
    ⟨Files.join o.outDir (c.asImport.fileName ++ ".tsx"), (Output.ComponentText.ofComponent c).shell o,
      false⟩ ∈ (Output.ComponentText.ofComponent c).files o := by
  simp [Output.ComponentText.files, Component.asImport, Output.ComponentText.ofComponent]

theorem Compilation.isLayered_of_registry {o : Options} {suffix : String} {r : Registry}
    {out : Compilation} (hs : r.Sound suffix) (hl : r.Layered)
    (hcomponents : out.components = r.components.values)
    (hfiles : out.files =
      out.components.flatMap fun d => (Output.ComponentText.ofComponent d).files o) :
    out.IsLayered o := by
  have hnames : (out.components.map Component.name).Nodup := by
    rw [hcomponents, hs.map_name]
    exact hs.nodup_keys
  have himports : ∀ before c after, out.components = before ++ c :: after →
      ∀ e ∈ c.scope.imports, ∃ d ∈ before, d.name = e.1 ∧ e.2 = d.asImport := by
    intro before c after hsplit e he
    rw [hcomponents, Table.values, List.map_eq_append_iff] at hsplit
    obtain ⟨before', rest, htable, rfl, hrest⟩ := hsplit
    obtain ⟨entry, after', rfl, rfl, -⟩ := List.map_eq_cons_iff.1 hrest
    obtain ⟨d, hd, hi⟩ := hl.imports_before before' entry after' htable e he
    have hmem : (e.1, d) ∈ r.components := by
      rw [htable]
      exact List.mem_append_left _ hd
    exact ⟨d, List.mem_map_of_mem (f := Prod.snd) hd, (hs.named _ hmem).name_eq, hi⟩
  refine ⟨hnames, ?_, Compilation.acyclic_of_imports_before hnames ?_, ?_⟩
  · intro before c after hsplit e he
    obtain ⟨d, hd, hname, hi⟩ := himports before c after hsplit e he
    have hmem : d ∈ out.components := by
      rw [hsplit]
      exact List.mem_append_left _ hd
    rw [hi, hfiles]
    exact ⟨d, hd, hname, hname, rfl, List.mem_flatMap.2 ⟨d, hmem, d.shell_mem_files o⟩⟩
  · intro before c after hsplit e he
    obtain ⟨d, hd, hname, -⟩ := himports before c after hsplit e he
    exact ⟨d, hd, hname⟩
  · intro c hc
    rw [hcomponents] at hc
    obtain ⟨entry, hentry, rfl⟩ := List.mem_map.1 hc
    exact hl.shown_imported entry hentry

theorem Compiler.exists_registry_of_emit {c : Compiler} {scene : NormalizedScene}
    {descriptions : Table String} {resources : Assets.Resources} {out : Compilation}
    (h : c.emit scene descriptions resources = .ok out) :
    ∃ r, exec (buildAll ⟨scene.forest, c.options, resources, descriptions, c.plugins⟩) {} =
        (.ok (), r) ∧ out.components = r.components.values ∧
      out.files =
        out.components.flatMap fun d => (Output.ComponentText.ofComponent d).files c.options := by
  rcases hb : exec (buildAll ⟨scene.forest, c.options, resources, descriptions, c.plugins⟩) {}
    with ⟨e | u, r⟩
  · have herror : c.emit scene descriptions resources = .error e := by
      change Except.map _ (exec (buildAll _) {}).1 = _
      rw [hb]
      rfl
    rw [herror] at h
    cases h
  · have hok : c.emit scene descriptions resources =
        .ok { components := r.components.values
              files := r.components.values.flatMap
                fun d => (Output.ComponentText.ofComponent d).files c.options
              assets := resources.emitted } := by
      change Except.map (fun _ => Compilation.mk (exec (buildAll _) {}).2.components.values
        ((exec (buildAll _) {}).2.components.values.flatMap _) _) (exec (buildAll _) {}).1 = _
      rw [hb]
      rfl
    rw [hok] at h
    cases h
    exact ⟨r, rfl, rfl, rfl⟩

/-- A run gives out what the builds of its scene leave in a registry. -/
theorem Compiler.exists_registry_of_compileCanvas {c : Compiler} {canvas : SceneNode} {out : Compilation}
    (h : (c.compileCanvas canvas).run.CanEnd (.ok out)) :
    ∃ descriptions resources r,
      exec (buildAll ⟨(NormalizedScene.ofCanvas c.options canvas).forest, c.options, resources, descriptions,
        c.plugins⟩) {} = (.ok (), r) ∧ out.components = r.components.values ∧
      out.files =
        out.components.flatMap fun d => (Output.ComponentText.ofComponent d).files c.options := by
  obtain ⟨descriptions, resources, hemit⟩ := exists_emit_of_compileCanvas h
  obtain ⟨r, hregistry⟩ := exists_registry_of_emit hemit
  exact ⟨descriptions, resources, r, hregistry⟩

theorem Compiler.isLayered_of_compileCanvas {c : Compiler} {canvas : SceneNode} {out : Compilation}
    (h : (c.compileCanvas canvas).run.CanEnd (.ok out)) : out.IsLayered c.options := by
  obtain ⟨_, _, r, hbuilds, hcomponents, hfiles⟩ := exists_registry_of_compileCanvas h
  obtain ⟨hs, hl, -⟩ := layered_of_builds (Sound.empty _) Layered.empty hbuilds
  exact Compilation.isLayered_of_registry hs hl hcomponents hfiles

/-- Whatever is answered to the questions of a run, its components come after all that they import, and
among them are all visible components of the canvas. -/
theorem layered_compileCanvas {c : Compiler} {canvas : SceneNode} {out : Compilation}
    (h : (c.compileCanvas canvas).run.CanEnd (.ok out)) :
    out.IsLayered c.options ∧
      ∀ node ∈ canvas.children, node.attrs.visible → node.attrs.isComponentRoot →
        componentName c.options.delimiters node.attrs.name ∈ out.components.map Component.name := by
  obtain ⟨descriptions, resources, hemit⟩ := Compiler.exists_emit_of_compileCanvas h
  obtain ⟨r, hbuilds, hcomponents, hfiles⟩ := Compiler.exists_registry_of_emit hemit
  obtain ⟨hs, hl, -, hroots⟩ := layered_of_builds (Sound.empty _) Layered.empty hbuilds
  refine ⟨Compilation.isLayered_of_registry hs hl hcomponents hfiles, ?_⟩
  intro node hnode visible root
  obtain ⟨i, hi, n, hn, hattrs⟩ :=
    Draft.hasRoot_addComponents c.options hnode visible root {}
  have hname := hroots i hi n hn
  rw [hcomponents, hs.map_name, ← hattrs]
  exact hname

def bareSource : Source
  | .canvas => .ok cardOverBadge
  | .descriptions _ => .ok []
  | .exports _ => .ok []
  | .fills => .ok []
  | .fetch url => .error (.service 404 url)

def plainCompiler : Compiler where
  rasterize _ _ := .error .parse

theorem names_cardOverBadge :
    ((plainCompiler.compileCanvas cardOverBadge).run.run bareSource).2.toOption.map
      (fun out => out.components.map Component.name) = some ["Badge", "Card"] := by
  decide +kernel

/-- The badge comes before the card that shows it. -/
theorem layered_cardOverBadge :
    ∃ out, (plainCompiler.compileCanvas cardOverBadge).run.CanEnd (.ok out) ∧ out.IsLayered {} ∧
      out.components.map Component.name = ["Badge", "Card"] := by
  have hnames := names_cardOverBadge
  rcases hout : ((plainCompiler.compileCanvas cardOverBadge).run.run bareSource).2 with e | out <;>
    rw [hout] at hnames
  · cases hnames
  · have hend := Conversation.canEnd_run bareSource (plainCompiler.compileCanvas cardOverBadge).run
    rw [hout] at hend
    exact ⟨out, hend, (layered_compileCanvas hend).1, Option.some.inj hnames⟩

end DesignCompiler

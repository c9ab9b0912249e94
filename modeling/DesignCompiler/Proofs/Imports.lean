import DesignCompiler.Proofs.Blocks
import DesignCompiler.Proofs.Edits
import DesignCompiler.Proofs.Growth

namespace DesignCompiler

open Step Registry

variable {ctx : Context} {suffix : String}

def Rendered.components (r : Rendered) : List String := r.fragments.filterMap Fragment.component?

def Scope.ImportsFrom (t : Table Component) (s : Scope) : Prop :=
  ∀ e ∈ s.imports, ∃ d, (e.1, d) ∈ t ∧ e.2 = d.asImport

theorem Scope.ImportsFrom.mono {s : Scope} {t u : Table Component} (h : s.ImportsFrom t) (hp : t <+: u) :
    s.ImportsFrom u := by
  intro e he
  obtain ⟨d, hd, hi⟩ := h e he
  exact ⟨d, hp.subset hd, hi⟩

theorem Scope.ImportsFrom.addImport {s : Scope} {t : Table Component} {c : Component}
    (h : s.ImportsFrom t) (hc : (c.name, c) ∈ t) : (s.addImport c.asImport).ImportsFrom t := by
  intro e he
  rcases Table.mem_put he with rfl | he
  · exact ⟨c, hc, rfl⟩
  · exact h e he

theorem Scope.keys_addImport (s : Scope) (i : Import) :
    s.imports.keys ⊆ (s.addImport i).imports.keys ∧ i.name ∈ (s.addImport i).imports.keys := by
  rw [Scope.addImport, Table.keys_put]
  split
  · next h => exact ⟨List.Subset.refl _, h⟩
  · exact ⟨List.subset_append_left .., by simp⟩

namespace Registry

/-- Each component imports only components before it, and all those that it shows. -/
structure Layered (r : Registry) : Prop where
  imports_before : ∀ before e after, r.components = before ++ e :: after →
    e.2.scope.ImportsFrom before
  shown_imported : ∀ e ∈ r.components, e.2.body.components ⊆ e.2.scope.imports.keys

theorem Layered.empty : Layered {} where
  imports_before before e after h := by cases before <;> cases h
  shown_imported e he := by cases he

theorem Layered.stored {r : Registry} (h : r.Layered) {name : String} {c : Component}
    (hn : name ∉ r.components.keys) (hi : c.scope.ImportsFrom r.components)
    (hs : c.body.components ⊆ c.scope.imports.keys) : (r.stored name c).Layered := by
  have hput : (r.stored name c).components = r.components ++ [(name, c)] := Table.put_of_notMem hn c
  constructor
  · intro before e after hsplit
    rw [hput] at hsplit
    rcases after.eq_nil_or_concat with rfl | ⟨after, x, rfl⟩
    · obtain ⟨rfl, he⟩ := List.append_inj' hsplit rfl
      cases he
      exact hi
    · refine h.imports_before before e after ?_
      rw [List.concat_eq_append, ← List.cons_append, ← List.append_assoc] at hsplit
      exact (List.append_inj' hsplit rfl).1
  · intro e he
    rw [hput] at he
    rcases List.mem_append.1 he with he | he
    · exact h.shown_imported e he
    · rw [List.mem_singleton.1 he]
      exact hs

end Registry

/-- A build that succeeds leaves its component under a name in a registry that is still layered. -/
def Delivers (suffix name : String) (build : Registering Component) : Prop :=
  ∀ r c s, r.Sound suffix → r.Layered → exec build r = (.ok c, s) →
    s.Sound suffix ∧ s.Layered ∧ r.components <+: s.components ∧ (name, c) ∈ s.components ∧ c.name = name

structure Wired (suffix : String) (s : Scope × Registry) : Prop where
  sound : s.2.Sound suffix
  layered : s.2.Layered
  imports : s.1.ImportsFrom s.2.components

/-- A visit to a node whose scope imports all that the visit shows, and all that it imported before. -/
structure Work.Wired (suffix : String) (node : Node) (imported : List String) (s : Work × Registry) :
    Prop where
  wired : DesignCompiler.Wired suffix (s.1.scope, s.2)
  node_eq : s.1.visit.node = node
  shown : s.1.visit.components ⊆ s.1.scope.imports.keys
  imported : imported ⊆ s.1.scope.imports.keys

namespace Work.Wired

variable {node : Node} {imported : List String} {w v : Work} {r : Registry} {s t : Work × Registry}
  {nested : Option (Registering Component)}

theorem edits (h : Wired suffix node imported (w, r)) (he : Edits w v) :
    Wired suffix node imported (v, r) where
  wired := by
    refine ⟨h.wired.sound, h.wired.layered, ?_⟩
    dsimp only
    rw [Scope.ImportsFrom, he.imports_eq]
    exact h.wired.imports
  node_eq := he.node_eq.trans h.node_eq
  shown := by
    dsimp only
    rw [he.imports_eq]
    exact List.Subset.trans he.shown h.shown
  imported := by
    dsimp only
    rw [he.imports_eq]
    exact h.imported

theorem drawNested (hn : ∀ build ∈ nested, Delivers suffix (ctx.nameOf node) build)
    (h : Wired suffix node imported (w, r)) (hd : exec (drawNested ctx nested) (w, r) = (.ok (), t)) :
    Wired suffix node imported t := by
  cases nested with
  | none =>
      rw [exec_drawNested_none] at hd
      cases hd
      exact h
  | some build =>
      rw [exec_drawNested_some] at hd
      split at hd
      · rcases hb : exec build r with ⟨e | c, s⟩ <;> rw [hb] at hd <;> cases hd
        obtain ⟨hs, hl, hp, hc, hname⟩ := hn build rfl r c s h.wired.sound h.wired.layered hb
        obtain ⟨hgrown, hadded⟩ := w.scope.keys_addImport c.asImport
        refine ⟨⟨hs, hl, ?_⟩, h.node_eq, ?_, List.Subset.trans h.imported hgrown⟩
        · exact (h.wired.imports.mono hp).addImport (hname ▸ hc)
        · -- Of what was shown before only the fragments before the children are left.
          intro name hshown
          change name ∈ (w.visit.prelude ++
            [Fragment.component (ctx.nameOf w.visit.node) w.visit.sceneId]).filterMap
              Fragment.component? at hshown
          rw [List.filterMap_append, List.mem_append] at hshown
          rcases hshown with hshown | hshown
          · refine hgrown (h.shown ?_)
            rw [Visit.components, List.filterMap_append]
            exact List.mem_append_left _ hshown
          · rw [List.mem_singleton.1 hshown, h.node_eq, ← hname]
            exact hadded
      · cases hd
        exact h.edits (Edits.addDescription w)

theorem runPlugins (hn : ∀ build ∈ nested, Delivers suffix (ctx.nameOf node) build)
    (plugins : List ContentPlugin) (h : Wired suffix node imported s)
    (hr : exec (runPlugins ctx nested plugins) s = (.ok (), t)) : Wired suffix node imported t := by
  induction plugins generalizing s with
  | nil =>
      cases hr
      exact h
  | cons p plugins ih =>
      rw [exec_runPlugins_cons] at hr
      rcases hp : exec (p.apply ctx nested) s with ⟨e | u, s'⟩ <;> rw [hp] at hr
      · cases hr
      · refine ih ?_ hr
        obtain ⟨w, r⟩ := s
        by_cases hnested : p = .nestedComponent
        · subst hnested
          exact h.drawNested hn hp
        · obtain ⟨v, hv, hedits⟩ := Edits.apply ctx nested hnested w r
          rw [hp] at hv
          cases hv
          exact h.edits hedits

theorem start {scope : Scope} (hs : DesignCompiler.Wired suffix (scope, r)) (node : Node)
    (place : Place) : Wired suffix node scope.imports.keys (⟨.start node place, scope⟩, r) where
  wired := hs
  node_eq := by
    unfold Visit.start
    dsimp only
    split <;> rfl
  shown := by
    unfold Visit.start
    dsimp only
    split <;> exact List.nil_subset _
  imported := List.Subset.refl _

end Work.Wired

def Wires (suffix : String) (draw : Building Rendered) : Prop :=
  ∀ s r t, Wired suffix s → exec draw s = (.ok r, t) →
    Wired suffix t ∧ s.1.imports.keys ⊆ t.1.imports.keys ∧ r.components ⊆ t.1.imports.keys

theorem imports_openWrappers (v : Visit) (scope : Scope) :
    (v.openWrappers scope).2.imports = scope.imports := by
  rw [Visit.openWrappers]
  dsimp only
  rw [Scope.imports_addStyle, Scope.imports_addStyle, Scope.imports_addStyle]

theorem wired_enterNode {i : Nat} {node : Node} {place : Place} {cleared : Bool} {r : Rendered}
    {s t : Scope × Registry} (hs : Wired suffix s)
    (hn : ∀ build ∈ nestedBuild ctx i place, Delivers suffix (ctx.nameOf node) build)
    (h : exec (enterNode ctx i node place) s = (.ok (cleared, r), t)) :
    Wired suffix t ∧ s.1.imports.keys ⊆ t.1.imports.keys ∧
      (r.prelude ++ r.content).filterMap Fragment.component? ⊆ t.1.imports.keys := by
  obtain ⟨scope, registry⟩ := s
  obtain ⟨v, u, hv, h⟩ := exec_bind_eq_ok.1 h
  obtain ⟨r', u', hr, h⟩ := exec_bind_eq_ok.1 h
  rw [exec_pure] at h
  cases h
  rw [exec_draw] at hv
  rcases hp : exec (runPlugins ctx (nestedBuild ctx i place) ctx.plugins.content)
      (Work.applyStyles ctx ⟨.start node place, scope⟩, registry) with ⟨e | _, w, q⟩ <;>
    rw [hp] at hv <;> cases hv
  have hstart := Work.Wired.start hs node place
  have hw := (hstart.edits (Work.Edits.applyStyles _)).runPlugins hn _ hp
  have hfinish := Visit.Same.finish w.visit
  cases hr
  refine ⟨⟨hw.wired.sound, hw.wired.layered, ?_⟩, ?_, ?_⟩
  · change Scope.ImportsFrom _ (w.visit.finish.openWrappers w.scope).2
    rw [Scope.ImportsFrom, imports_openWrappers]
    exact hw.wired.imports
  · change _ ⊆ (w.visit.finish.openWrappers w.scope).2.imports.keys
    rw [imports_openWrappers]
    exact hw.imported
  · change (w.visit.finish.prelude ++ w.visit.finish.content).filterMap _ ⊆
      (w.visit.finish.openWrappers w.scope).2.imports.keys
    rw [imports_openWrappers, hfinish.prelude_eq, hfinish.content_eq]
    exact hw.shown

theorem wired_drawTurns {node : Node} {turns : List Turn}
    (hturns : ∀ turn ∈ turns, Wires suffix (drawNode ctx turn.node (turn.place ctx node)))
    {s t : Scope × Registry} {children : List Rendered} (hs : Wired suffix s)
    (h : exec (drawTurns ctx node turns) s = (.ok children, t)) :
    Wired suffix t ∧ s.1.imports.keys ⊆ t.1.imports.keys ∧
      ∀ c ∈ children, c.components ⊆ t.1.imports.keys := by
  induction turns generalizing s children with
  | nil =>
      rw [drawTurns, List.mapM_nil, exec_pure] at h
      cases h
      exact ⟨hs, List.Subset.refl _, by simp⟩
  | cons turn turns ih =>
      obtain ⟨c, u, cs, hc, hcs, rfl⟩ := exec_mapM_cons_eq_ok.1 h
      obtain ⟨hu, hkeys, hshown⟩ := hturns turn List.mem_cons_self s c u hs hc
      obtain ⟨ht, hkeys', hshown'⟩ :=
        ih (fun turn' hturn' => hturns turn' (List.mem_cons_of_mem turn hturn')) hu hcs
      refine ⟨ht, List.Subset.trans hkeys hkeys', ?_⟩
      intro d hd
      rcases List.mem_cons.1 hd with rfl | hd
      · exact List.Subset.trans hshown hkeys'
      · exact hshown' d hd

theorem components_subset {r : Rendered} {names : List String}
    (hown : (r.prelude ++ r.content).filterMap Fragment.component? ⊆ names)
    (hchildren : ∀ c ∈ r.children, c.components ⊆ names) : r.components ⊆ names := by
  intro name hname
  rw [Rendered.components, Rendered.fragments_eq, Rendered.fragmentsOfAll_eq, List.filterMap_append,
    List.filterMap_append, List.filterMap_flatMap] at hname
  rw [List.filterMap_append] at hown
  simp only [List.mem_append, List.mem_flatMap] at hname
  rcases hname with (hname | ⟨c, hc, hname⟩) | hname
  · exact hown (List.mem_append_left _ hname)
  · exact hchildren c hc hname
  · exact hown (List.mem_append_right _ hname)

theorem delivers_buildComponent {i : Nat} {node : Node} (found : ctx.forest.get? i = some node)
    (hdraw : Wires ctx.options.instanceSuffix (drawNode ctx i {})) :
    Delivers ctx.options.instanceSuffix (ctx.nameOf node) (buildComponent ctx i) := by
  intro r c s hr hl h
  obtain ⟨hs, -, hp⟩ := keeps_buildComponent i r hr
  obtain ⟨node', found', hlookup⟩ := lookup_of_build (congrArg Prod.fst h)
  obtain rfl := Option.some.inj (found.symm.trans found')
  rw [h] at hs hp hlookup
  have hmem := Table.mem_of_lookup hlookup
  refine ⟨hs, ?_, hp, hmem, (hs.named _ hmem).name_eq⟩
  rcases unfinished : r.components.lookup (ctx.nameOf node) with _ | d
  · obtain ⟨unopened, body, scope, t, hbody, rfl, rfl⟩ := exists_body_of_build found unfinished h
    have hopened := hr.opened (Table.lookup_eq_none.1 unfinished) unopened
    have hstart : Wired ctx.options.instanceSuffix
        (.start ctx (ctx.nameOf node), r.opened (ctx.nameOf node)) :=
      ⟨hopened, ⟨hl.imports_before, hl.shown_imported⟩, by simp [Scope.ImportsFrom, Scope.start]⟩
    obtain ⟨ht, -, hshown⟩ := hdraw _ _ _ hstart hbody
    obtain ⟨-, hbuilding, -⟩ := keeps_drawNode i {}
      (.start ctx (ctx.nameOf node), r.opened (ctx.nameOf node)) hopened
    rw [hbody] at hbuilding
    -- The name is open while the body is drawn, so that nothing is stored under it meanwhile.
    have hname : ctx.nameOf node ∉ t.components.keys :=
      ht.sound.disjoint _ (by rw [hbuilding]; simp [Registry.opened])
    have hclosed : (t.closed (ctx.nameOf node)).Layered :=
      ⟨ht.layered.imports_before, ht.layered.shown_imported⟩
    exact hclosed.stored hname ht.imports hshown
  · rw [(build_of_lookup found unfinished).1] at h
    cases h
    exact hl

theorem wires_calls (ctx : Context) :
    (∀ i place, Wires ctx.options.instanceSuffix (drawNode ctx i place)) ∧
      ∀ i node, ctx.forest.get? i = some node →
        Delivers ctx.options.instanceSuffix (ctx.nameOf node) (buildComponent ctx i) := by
  refine drawNode.mutual_induct ctx
    (fun i place => Wires ctx.options.instanceSuffix (drawNode ctx i place))
    (fun i => ∀ node, ctx.forest.get? i = some node →
      Delivers ctx.options.instanceSuffix (ctx.nameOf node) (buildComponent ctx i)) ?_ ?_ ?_ ?_
  · intro i place missing s r t hs h
    rw [drawNode_of_none missing] at h
    cases h
  · intro i place node found hnested hchildren s r t hs h
    have hn : ∀ build ∈ nestedBuild ctx i place,
        Delivers ctx.options.instanceSuffix (ctx.nameOf node) build := by
      intro build hb
      obtain ⟨p, hp, rfl⟩ := Option.map_eq_some_iff.1 hb
      exact hnested p hp node found
    obtain ⟨node', rendered, u, found', hcases⟩ := exec_drawNode_eq_ok h
    obtain rfl := Option.some.inj (found.symm.trans found')
    rcases hcases with ⟨entered, rfl, rfl⟩ | ⟨entered, children, hturns, rfl⟩
    · obtain ⟨ht, hkeys, hown⟩ := wired_enterNode hs hn entered
      refine ⟨ht, hkeys, components_subset hown ?_⟩
      simp [children_of_enterNode entered]
    · -- What the node imports for itself stays imported while its children are drawn.
      obtain ⟨hu, hkeys, hown⟩ := wired_enterNode hs hn entered
      obtain ⟨ht, hkeys', hshown⟩ := wired_drawTurns hchildren hu hturns
      exact ⟨ht, List.Subset.trans hkeys hkeys', components_subset (List.Subset.trans hown hkeys') hshown⟩
  · intro i missing node found
    rw [missing] at found
    cases found
  · intro i node found hdraw node' found'
    obtain rfl := Option.some.inj (found.symm.trans found')
    exact delivers_buildComponent found hdraw

end DesignCompiler

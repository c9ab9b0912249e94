import DesignCompiler.Proofs.Collection
import DesignCompiler.Proofs.Growth
import DesignCompiler.Proofs.Lockstep

namespace DesignCompiler

open Step Assets

namespace Assets

inductive Query where
  | vector (id : String)
  | vectorUrl (id : String)
  | image (ref : String)
  | mask (id : String)
  deriving DecidableEq

def Request.Covers (r : Request) : Query → Prop
  | .vector id | .vectorUrl id => id ∈ r.vectors
  | .image ref => ref ∈ r.images
  | .mask id => id ∈ r.masks

def Resources.Agrees (a b : Resources) : Query → Prop
  | .vector id => a.vectors.lookup id = b.vectors.lookup id
  | .vectorUrl id => a.vectorUrls.lookup id = b.vectorUrls.lookup id
  | .image ref => a.images.lookup ref = b.images.lookup ref
  | .mask id => a.masks.lookup id = b.masks.lookup id

end Assets

def NodeAttributes.fillRef? (attrs : NodeAttributes) : Option String :=
  ((visiblePaint? attrs.fills).filter (·.kind = .image)).bind (·.imageRef)

def StylePlugin.queries (f : Forest) (node : Node) : StylePlugin → List Query
  | .frameStyles => if node.kind = .rectangle then (node.attrs.fillRef?.map .image).toList else []
  | .maskCompositing => ((node.mask.bind f.get?).map fun m => .mask m.attrs.id).toList
  | _ => []

/-- The URL of a vector is only asked for where its markup is there. -/
def ContentPlugin.queries (r : Resources) (node : Node) : ContentPlugin → List Query
  | .renderVector =>
    if node.kind ≠ .vector || node.attrs.isMask then []
    else .vector node.attrs.id ::
      if (r.vectors.lookup node.attrs.id).isSome && node.params.contains "vectorImg" then
        [.vectorUrl node.attrs.id]
      else []
  | _ => []

/-- A drawing asks what its plugins ask, each after those before it. -/
inductive Draw.Asks (ctx : Context) (d : Draw) : Query → Prop
  | style {node : Node} {before after : List StylePlugin} {p : StylePlugin} {q : Query}
      (found : ctx.forest.get? d.node = some node)
      (plugins : ctx.plugins.style = before ++ p :: after)
      (asked : q ∈ p.queries ctx.forest
        (before.foldl (fun (w : Work) p => p.apply ctx w) ⟨.start node d.place, d.scope⟩).visit.node) :
      Asks ctx d q
  | content {node : Node} {before after : List ContentPlugin} {p : ContentPlugin} {w : Work}
      {r : Registry} {q : Query}
      (found : ctx.forest.get? d.node = some node)
      (plugins : ctx.plugins.content = before ++ p :: after)
      (earlier : exec (runPlugins ctx (nestedBuild ctx d.node d.place) before)
        (Work.applyStyles ctx ⟨.start node d.place, d.scope⟩, d.registry) = (.ok (), (w, r)))
      (asked : q ∈ p.queries ctx.resources w.visit.node) : Asks ctx d q

section Reads

variable {ctx : Context} {a b : Resources}

theorem imageFill_congr {fill : Paint}
    (h : ∀ ref ∈ fill.imageRef, a.Agrees b (.image ref)) :
    imageFill { ctx with resources := a } fill = imageFill { ctx with resources := b } fill := by
  unfold imageFill
  cases hr : fill.imageRef with
  | none => rfl
  | some ref =>
      have hagrees : a.images.lookup ref = b.images.lookup ref := h ref hr
      simp only [Option.bind_some, hagrees]

theorem fillStyles_congr {fill : Paint}
    (h : fill.kind = .image → ∀ ref ∈ fill.imageRef, a.Agrees b (.image ref)) :
    fillStyles { ctx with resources := a } fill = fillStyles { ctx with resources := b } fill := by
  unfold fillStyles
  cases hk : fill.kind with
  | image => exact imageFill_congr (h hk)
  | _ => rfl

theorem paint_congr {v : Visit}
    (h : ∀ q ∈ StylePlugin.frameStyles.queries ctx.forest v.node, a.Agrees b q) :
    v.paint { ctx with resources := a } = v.paint { ctx with resources := b } := by
  unfold Visit.paint
  split
  · rfl
  · split
    · next hkind =>
      simp only [StylePlugin.queries, if_pos hkind] at h
      unfold paintRectangle
      cases hv : visiblePaint? v.node.attrs.fills with
      | none => rfl
      | some fill =>
          have hfill : fillStyles { ctx with resources := a } fill =
              fillStyles { ctx with resources := b } fill := by
            refine fillStyles_congr fun hk ref href => h _ ?_
            simp [NodeAttributes.fillRef?, hv, Option.filter_some, hk, Option.mem_def.1 href]
          simp only [Option.map_some, hfill]
    · rfl

theorem composeMask_congr {v : Visit}
    (h : ∀ q ∈ StylePlugin.maskCompositing.queries ctx.forest v.node, a.Agrees b q) :
    v.composeMask { ctx with resources := a } = v.composeMask { ctx with resources := b } := by
  unfold Visit.composeMask
  simp only [StylePlugin.queries] at h
  cases hm : v.node.mask.bind fun i => ctx.forest.get? i with
  | none => rfl
  | some m =>
      have hagrees : a.masks.lookup m.attrs.id = b.masks.lookup m.attrs.id :=
        h (.mask m.attrs.id) (by rw [hm]; simp)
      simp only [Option.bind_some, hagrees]

theorem StylePlugin.apply_congr (p : StylePlugin) {w : Work}
    (h : ∀ q ∈ p.queries ctx.forest w.visit.node, a.Agrees b q) :
    p.apply { ctx with resources := a } w = p.apply { ctx with resources := b } w := by
  cases p with
  | frameStyles => simp only [StylePlugin.apply, Work.editVisit, paint_congr h]
  | maskCompositing => simp only [StylePlugin.apply, Work.editVisit, composeMask_congr h]
  | _ => rfl

theorem drawVector_congr {w : Work}
    (h : ∀ q ∈ ContentPlugin.renderVector.queries a w.visit.node, a.Agrees b q) :
    w.drawVector { ctx with resources := a } = w.drawVector { ctx with resources := b } := by
  unfold Work.drawVector
  dsimp only
  split
  · rfl
  · next hnode =>
    rw [ContentPlugin.queries, if_neg hnode] at h
    have hmarkup : a.vectors.lookup w.visit.node.attrs.id = b.vectors.lookup w.visit.node.attrs.id :=
      h (.vector _) List.mem_cons_self
    rw [← hmarkup]
    split
    · rfl
    · next markup hfound =>
      by_cases himg : w.visit.node.params.contains "vectorImg"
      · have hurl : a.vectorUrls.lookup w.visit.node.attrs.id =
            b.vectorUrls.lookup w.visit.node.attrs.id :=
          h (.vectorUrl _) (by simp [hfound, himg])
        simp only [if_pos himg, hurl]
      · simp only [if_neg himg]

end Reads

section Requested

variable {ctx : Context} {o : Options} {canvas : SceneNode}

theorem StylePlugin.covers_queries {scene : NormalizedScene} (hs : scene.Collects) {i : Nat} {node : Node}
    (found : scene.forest.get? i = some node) (p : StylePlugin) :
    ∀ q ∈ p.queries scene.forest node, scene.request.Covers q := by
  have hface : scene.tree.faceAt? i = some (node.attrs, node.kind) := by
    rw [NodeTree.faceAt?, show scene.tree.get? i = some node from found, Option.map_some]
  cases p with
  | frameStyles =>
      intro q hq
      simp only [StylePlugin.queries] at hq
      split at hq
      · obtain ⟨ref, href, rfl⟩ := Option.map_eq_some_iff.1 (Option.mem_toList.1 hq)
        obtain ⟨fill, hfill, himage⟩ := Option.bind_eq_some_iff.1 href
        obtain ⟨hvisible, hkind⟩ := Option.filter_eq_some_iff.1 hfill
        obtain ⟨hlast, -⟩ := Option.filter_eq_some_iff.1 hvisible
        refine hs.images i _ _ hface ref (List.mem_filterMap.2 ⟨fill, ?_, himage⟩)
        exact List.mem_filter.2 ⟨List.mem_of_getLast? hlast, hkind⟩
      · cases hq
  | maskCompositing =>
      intro q hq
      obtain ⟨m, hm, rfl⟩ := Option.map_eq_some_iff.1 (Option.mem_toList.1 hq)
      obtain ⟨j, hj, hget⟩ := Option.bind_eq_some_iff.1 hm
      have hmask : scene.tree.maskAt? i = some j := by
        rw [NodeTree.maskAt?, show scene.tree.get? i = some node from found, Option.bind_some, hj]
      obtain ⟨attrs, kind, hface', hid⟩ := hs.masks i j hmask
      rw [NodeTree.faceAt?, show scene.tree.get? j = some m from hget] at hface'
      cases hface'
      exact hid
  | _ => exact fun q hq => absurd hq List.not_mem_nil

theorem ContentPlugin.covers_queries {scene : NormalizedScene} (hs : scene.Collects) {i : Nat} {node : Node}
    (found : scene.forest.get? i = some node) (r : Resources) (p : ContentPlugin) :
    ∀ q ∈ p.queries r node, scene.request.Covers q := by
  have hface : scene.tree.faceAt? i = some (node.attrs, node.kind) := by
    rw [NodeTree.faceAt?, show scene.tree.get? i = some node from found, Option.map_some]
  cases p with
  | renderVector =>
      intro q hq
      rw [ContentPlugin.queries] at hq
      split at hq
      · cases hq
      · next hnode =>
        have hkind : node.kind = .vector := by grind
        have hid := hs.vectors i node.attrs (hkind ▸ hface)
        rcases List.mem_cons.1 hq with rfl | hq
        · exact hid
        · split at hq
          · rw [List.mem_singleton.1 hq]
            exact hid
          · cases hq
  | _ => exact fun q hq => absurd hq List.not_mem_nil

theorem Draw.Asks.covers {scene : NormalizedScene} (hs : scene.Collects) (hf : ctx.forest = scene.forest)
    {d : Draw} {q : Query} (h : d.Asks ctx q) : scene.request.Covers q := by
  cases h with
  | @style node before after p _ found plugins asked =>
      rw [node_foldl_apply, node_start] at asked
      rw [hf] at found asked
      exact p.covers_queries hs found q asked
  | @content node before after p w r _ found plugins earlier asked =>
      have hnode := node_runPlugins ctx (nestedBuild ctx d.node d.place) before
        (Work.applyStyles ctx ⟨.start node d.place, d.scope⟩) d.registry
      rw [earlier, node_applyStyles, node_start] at hnode
      rw [hf] at found
      exact p.covers_queries hs (hnode ▸ found) ctx.resources q asked

theorem keepsStep_resources {scene : NormalizedScene} (hs : scene.Collects)
    (hf : ctx.forest = scene.forest) {other : Resources}
    (h : ∀ q, scene.request.Covers q → ctx.resources.Agrees other q) :
    ctx.KeepsStep (fun _ => False) { ctx with resources := other } where
  forest_eq := rfl
  plugins_eq := rfl
  nameOf_eq _ := rfl
  start_eq _ := rfl
  ofBody_eq _ _ _ _ := rfl
  addDescription_eq _ := rfl
  style i w found p := by
    rw [hf] at found
    refine @StylePlugin.apply_congr ctx ctx.resources other p w fun q hq => ?_
    rw [hf] at hq
    exact h q (p.covers_queries hs found q hq)
  vector i w found r := by
    rw [hf] at found
    have hdraw : w.drawVector ctx = w.drawVector { ctx with resources := other } :=
      @drawVector_congr ctx ctx.resources other w fun q hq =>
        h q (ContentPlugin.renderVector.covers_queries hs found ctx.resources q hq)
    rw [exec_drawVector, exec_drawVector, hdraw]
    exact .refl _

/-- Whatever is built and in whatever order, what a plugin asks for was requested with the scene, and no
build depends on anything else among the resources. -/
theorem asks_requested (hf : ctx.forest = (NormalizedScene.ofCanvas o canvas).forest) :
    (∀ d q, Draw.Asks ctx d q → (NormalizedScene.ofCanvas o canvas).request.Covers q) ∧
      ∀ other : Resources,
        (∀ q, (NormalizedScene.ofCanvas o canvas).request.Covers q → ctx.resources.Agrees other q) →
          ∀ roots i, exec (buildComponent ctx i) (Registry.ofBuilds ctx roots) =
            exec (buildComponent { ctx with resources := other } i)
              (Registry.ofBuilds { ctx with resources := other } roots) := by
  have hs := NormalizedScene.collects_ofCanvas o canvas
  refine ⟨fun d q hd => hd.covers hs hf, fun other hother roots => ?_⟩
  have hbuild : ∀ i r, exec (buildComponent ctx i) r =
      exec (buildComponent { ctx with resources := other } i) r :=
    fun i r => ((keepsStep_resources hs hf hother).tracks_calls.2 i).exec_eq r
  have hruns : Registry.ofBuilds ctx roots = Registry.ofBuilds { ctx with resources := other } roots := by
    induction roots using List.reverseRecOn with
    | nil => rfl
    | append_singleton roots i ih => rw [ofBuilds_append, ofBuilds_append, ih, Call.after, hbuild]; rfl
  intro i
  rw [hruns, hbuild]

end Requested

def cardWithIcon : SceneNode where
  attrs := { id := "0:0", name := "Page", kind := .canvas }
  children :=
    [{ attrs := { id := "1", name := "#Card" }
       children :=
        [{ attrs := { id := "2", name := "photo", kind := .rectangle
                      fills := [{ kind := .image, imageRef := some "sea" }] } },
          { attrs := { id := "3", name := "cut", kind := .rectangle, isMask := true } },
          { attrs := { id := "4", name := "icon", kind := .vector } }] }]

def drawnIcon : Context where
  forest := (NormalizedScene.ofCanvas {} cardWithIcon).forest
  options := {}
  resources := { vectors := [("4", "<svg/>")], images := [("sea", { url := "sea.png" })] }
  descriptions := []

def drawnAlone (i : Nat) : Draw := ⟨i, {}, .start drawnIcon "Card", {}⟩

theorem asks_photo : (drawnAlone 1).Asks drawnIcon (.image "sea") :=
  @Draw.Asks.style drawnIcon _ _
    [.middleOrder, .transformation, .horizontalAlign, .verticalAlign, .autoLayout] _ .frameStyles _
    rfl rfl (List.mem_singleton.2 rfl)

theorem asks_cut : (drawnAlone 1).Asks drawnIcon (.mask "3") :=
  @Draw.Asks.style drawnIcon _ _
    [.middleOrder, .transformation, .horizontalAlign, .verticalAlign, .autoLayout, .frameStyles] _
    .maskCompositing _ rfl rfl (List.mem_singleton.2 rfl)

theorem asks_icon : (drawnAlone 3).Asks drawnIcon (.vector "4") :=
  @Draw.Asks.content drawnIcon _ _ [.nameStyles, .nestedComponent, .renderMask] _ .renderVector _ _ _
    rfl rfl rfl (List.mem_singleton.2 rfl)

/-- The photo, its cut and the icon are requested, since they are asked for; a picture of something else
changes nothing. -/
theorem asks_requested_icon :
    (∀ q ∈ [.image "sea", .mask "3", .vector "4"],
      (NormalizedScene.ofCanvas {} cardWithIcon).request.Covers q) ∧
    ∀ sky, exec (buildComponent drawnIcon 0) {} =
      exec (buildComponent
        { drawnIcon with
          resources :=
            { drawnIcon.resources with
              images := drawnIcon.resources.images ++ [("sky", sky)] } } 0) {} := by
  obtain ⟨hasked, hothers⟩ := @asks_requested drawnIcon {} cardWithIcon rfl
  constructor
  · simp only [List.forall_mem_cons]
    exact ⟨hasked _ _ asks_photo, hasked _ _ asks_cut, hasked _ _ asks_icon, List.forall_mem_nil _⟩
  · intro sky
    refine hothers _ ?_ [] 0
    rintro (id | id | ref | id) hq
    · rfl
    · rfl
    · have href : ref = "sea" := List.mem_singleton.1 hq
      subst href
      rfl
    · rfl

end DesignCompiler

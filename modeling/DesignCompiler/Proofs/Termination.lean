import Mathlib.Data.List.Perm.Subperm
import Mathlib.Logic.Function.Iterate
import Mathlib.Order.Nat
import DesignCompiler.Proofs.Flattening
import DesignCompiler.Proofs.Mirroring
import DesignCompiler.Proofs.Recursion

namespace DesignCompiler

open Step Relation

variable {ctx : Context}

namespace Forest

variable {f : Forest} {i c : Nat}

def weight (f : Forest) (i : Nat) : Nat := (f.preorder i).tail.length

theorem length_preorder (f : Forest) (i : Nat) : (f.preorder i).length = f.weight i + 1 := by
  rw [weight, preorder, List.tail_cons, List.length_cons]

theorem weight_lt_of_hasChild (h : f.HasChild i c) : f.weight c < f.weight i := by
  have hmem : f.preorder c ∈ (f.children i).attach.map fun d => f.preorder d.1 :=
    List.mem_map.2 ⟨⟨c, h⟩, List.mem_attach .., rfl⟩
  have hle := (List.sublist_flatten_of_mem hmem).length_le
  have htail : f.weight i = ((f.children i).attach.map fun d => f.preorder d.1).flatten.length := by
    rw [weight, preorder, List.tail_cons]
    rfl
  rw [length_preorder] at hle
  omega

theorem weight_lt_of_below (h : f.Below i c) : f.weight c < f.weight i := by
  induction h with
  | single hc => exact weight_lt_of_hasChild hc
  | tail _ hc ih => exact (weight_lt_of_hasChild hc).trans ih

theorem wellFounded_hasChild (f : Forest) : WellFounded fun c i => f.HasChild i c :=
  Subrelation.wf (fun h => weight_lt_of_hasChild h) (InvImage.wf f.weight Nat.lt_wfRel.wf)

theorem lt_size_of_atOrBelow (hl : f.Linked) (h : f.AtOrBelow i c) (hi : i < f.size) : c < f.size := by
  cases ReflTransGen.cases_tail h with
  | inl heq => exact heq ▸ hi
  | inr htail =>
      obtain ⟨p, -, hc⟩ := htail
      exact NodeTree.lt_size_of_parent? (hl p c hc)

theorem weight_lt_size (ht : f.Tidy) (hi : i < f.size) : f.weight i < f.size := by
  have hsubset : f.preorder i ⊆ List.range f.size := by
    intro c hc
    exact List.mem_range.2 (lt_size_of_atOrBelow ht.linked (mem_preorder_iff.1 hc) hi)
  have hle := ((nodup_preorder ht i).subperm hsubset).length_le
  rw [length_preorder, List.length_range] at hle
  exact hle

end Forest

/-- The number of calls that can be open in the drawing of a node, and the drawing itself: three at each
node below it, and at the node itself those from it on. -/
def drawHeight (ctx : Context) (i : Nat) (place : Place) : Nat :=
  3 * ctx.forest.weight i + if place.parent.isSome then 3 else 1

def buildHeight (ctx : Context) (i : Nat) : Nat := 3 * ctx.forest.weight i + 2

theorem drawHeight_lt {i j : Nat} (h : ctx.forest.Below i j) (place place' : Place) :
    drawHeight ctx j place' < drawHeight ctx i place := by
  have hlt := Forest.weight_lt_of_below h
  unfold drawHeight
  split <;> split <;> omega

theorem drawHeight_root_lt (i : Nat) : drawHeight ctx i {} < buildHeight ctx i := Nat.lt_succ_self _

theorem buildHeight_lt {i : Nat} {place : Place} (inside : place.parent.isSome) :
    buildHeight ctx i < drawHeight ctx i place := by
  rw [drawHeight, if_pos inside]
  exact Nat.lt_succ_self _

namespace Call

def height (ctx : Context) : Call → Nat
  | .draw d => drawHeight ctx d.node d.place
  | .build i _ => buildHeight ctx i

/-- The step: whatever the registry is, a call makes smaller calls. -/
theorem Makes.height_lt {c e : Call} (h : Makes ctx c e) : e.height ctx < c.height ctx := by
  cases h with
  | child hd => exact drawHeight_lt (Forest.below_of_mem_flattened hd.mem_flattened) _ _
  | nested found inside plugins earlier root => exact buildHeight_lt inside
  | body found unfinished unopened => exact drawHeight_root_lt _

theorem wellFounded_makes (ctx : Context) : WellFounded fun e c => Makes ctx c e :=
  Subrelation.wf (fun h => h.height_lt) (InvImage.wf (height ctx) Nat.lt_wfRel.wf)

/-- The run: no more calls are open in each other than the height of the first. -/
theorem length_lt_height {c : Call} {calls : List Call} (h : (c :: calls).IsChain (Makes ctx)) :
    calls.length < c.height ctx := by
  induction calls generalizing c with
  | nil =>
      cases c <;> simp [height, drawHeight, buildHeight]
      split <;> omega
  | cons e calls ih =>
      obtain ⟨hmakes, hrest⟩ := List.isChain_cons_cons.1 h
      have hlt := hmakes.height_lt
      have hle := ih hrest
      rw [List.length_cons]
      omega

end Call

structure Recursion where
  draw : Nat → Place → Building Rendered
  build : Nat → Registering Component

theorem Step.mapM_congr {σ α β : Type} {f g : α → Step σ β} {l : List α} (h : ∀ a ∈ l, f a = g a) :
    l.mapM f = l.mapM g := by
  induction l with
  | nil => rfl
  | cons a l ih =>
      rw [List.mapM_cons, List.mapM_cons, h a List.mem_cons_self,
        ih fun b hb => h b (List.mem_cons_of_mem a hb)]

namespace Recursion

/-- A drawing and a build with others for the calls in them. -/
def unroll (ctx : Context) (inner : Recursion) : Recursion where
  draw i place :=
    match ctx.forest.get? i with
    | none => throw (.compile (.nodeNotFound i))
    | some node => do
      let v ← (Visit.start node place).draw ctx (place.parent.map fun _ => inner.build i)
      let rendered ← Building.openWrappers v.finish
      if v.finish.cleared then return rendered
      let children ← (ctx.forest.buckets i).turns.mapM fun t => inner.draw t.node (t.place ctx node)
      return { rendered with children }
  build i :=
    match ctx.forest.get? i with
    | none => throw (.compile (.nodeNotFound i))
    | some node => Registry.buildOnce (ctx.nameOf node) do
      let (body, scope) ← Building.inScope (.start ctx (ctx.nameOf node)) (inner.draw i {})
      return .ofBody ctx i node body scope

def complete (ctx : Context) : Recursion := ⟨drawNode ctx, buildComponent ctx⟩

theorem unroll_complete (ctx : Context) : (complete ctx).unroll ctx = complete ctx := by
  have hdraw : ((complete ctx).unroll ctx).draw = drawNode ctx := by
    funext i place
    cases found : ctx.forest.get? i with
    | none => simp only [drawNode_of_none found, unroll, found]
    | some node =>
        simp only [drawNode_of_some found, unroll, found, enterNode, bind_assoc, pure_bind]
        rfl
  have hbuild : ((complete ctx).unroll ctx).build = buildComponent ctx := by
    funext i
    cases found : ctx.forest.get? i with
    | none => simp only [buildComponent_of_none found, unroll, found]
    | some node =>
        simp only [buildComponent_of_some found, unroll, found]
        rfl
  exact congrArg₂ mk hdraw hbuild

variable {inner inner' : Recursion} {i : Nat} {place : Place}

theorem draw_unroll_congr (hbuild : place.parent.isSome → inner.build i = inner'.build i)
    (hdraw : ∀ t ∈ (ctx.forest.buckets i).turns, ∀ node,
      inner.draw t.node (t.place ctx node) = inner'.draw t.node (t.place ctx node)) :
    (inner.unroll ctx).draw i place = (inner'.unroll ctx).draw i place := by
  have hnested : (place.parent.map fun _ => inner.build i) = place.parent.map fun _ => inner'.build i := by
    cases hp : place.parent with
    | none => rfl
    | some p => rw [Option.map_some, Option.map_some, hbuild (by rw [hp]; rfl)]
  have hchildren : ∀ node,
      ((ctx.forest.buckets i).turns.mapM fun t => inner.draw t.node (t.place ctx node)) =
        (ctx.forest.buckets i).turns.mapM fun t => inner'.draw t.node (t.place ctx node) :=
    fun node => Step.mapM_congr fun t ht => hdraw t ht node
  simp only [unroll, hnested, hchildren]

theorem build_unroll_congr (hdraw : inner.draw i {} = inner'.draw i {}) :
    (inner.unroll ctx).build i = (inner'.unroll ctx).build i := by
  simp only [unroll, hdraw]

/-- Unrolled as often as its height says, a drawing does not come to what stands for the calls in it. -/
theorem iterate_unroll (inner : Recursion) (n : Nat) :
    (∀ i place, drawHeight ctx i place ≤ n →
      ((unroll ctx)^[n] inner).draw i place = drawNode ctx i place) ∧
    ∀ i, buildHeight ctx i ≤ n → ((unroll ctx)^[n] inner).build i = buildComponent ctx i := by
  induction n with
  | zero =>
      constructor
      · intro i place h
        unfold drawHeight at h
        split at h <;> omega
      · intro i h
        exact absurd h (Nat.not_succ_le_zero _)
  | succ n ih =>
      obtain ⟨hdraw, hbuild⟩ := ih
      rw [Function.iterate_succ_apply']
      constructor
      · intro i place h
        have hstep : ((unroll ctx)^[n] inner |>.unroll ctx).draw i place =
            ((complete ctx).unroll ctx).draw i place := by
          refine draw_unroll_congr (fun inside => hbuild i ?_) fun t ht node => hdraw _ _ ?_
          · have hlt : buildHeight ctx i < drawHeight ctx i place := buildHeight_lt inside
            omega
          · have hbelow := Forest.below_of_mem_flattened (Forest.schedules_iff.1 ⟨t, ht, rfl⟩)
            have hlt := drawHeight_lt hbelow place (t.place ctx node)
            omega
        rw [hstep, unroll_complete]
        rfl
      · intro i h
        have hstep : ((unroll ctx)^[n] inner |>.unroll ctx).build i =
            ((complete ctx).unroll ctx).build i := by
          refine build_unroll_congr (hdraw i {} ?_)
          have hlt : drawHeight ctx i {} < buildHeight ctx i := drawHeight_root_lt i
          omega
        rw [hstep, unroll_complete]
        rfl

end Recursion

/-- The calls in which groups are seen through, nodes drawn and components built all end, whatever has
been built or is being built when they begin. -/
structure Context.Terminates (ctx : Context) : Prop where
  children : WellFounded fun c i => ctx.forest.HasChild i c
  calls : WellFounded fun e c => Call.Makes ctx c e
  length_lt : ∀ c calls, (c :: calls).IsChain (Call.Makes ctx) → calls.length < c.height ctx
  draw_eq : ∀ inner n i place, drawHeight ctx i place ≤ n →
    ((Recursion.unroll ctx)^[n] inner).draw i place = drawNode ctx i place
  build_eq : ∀ inner n i, buildHeight ctx i ≤ n →
    ((Recursion.unroll ctx)^[n] inner).build i = buildComponent ctx i

theorem Context.terminates (ctx : Context) : ctx.Terminates where
  children := Forest.wellFounded_hasChild ctx.forest
  calls := Call.wellFounded_makes ctx
  length_lt _ _ := Call.length_lt_height
  draw_eq inner n := (Recursion.iterate_unroll inner n).1
  build_eq inner n := (Recursion.iterate_unroll inner n).2

/-- Over the tree of a canvas all calls end, and fewer of them are open in the build of a node than three
for each layer that is kept, although a component inside of another is drawn, built, and drawn again as
its root, all at one node. -/
theorem terminates_of_canvas {o : Options} {canvas : SceneNode}
    (hf : ctx.forest = (NormalizedScene.ofCanvas o canvas).forest) :
    ctx.Terminates ∧
      (∀ i < ctx.forest.size, buildHeight ctx i < 3 * canvas.keptLayers.length) ∧
      (ctx.plugins = {} → ∀ d node, ctx.forest.get? d.node = some node → d.place.parent.isSome →
        node.attrs.isComponentRoot → d.registry.components.lookup (ctx.nameOf node) = none →
        ctx.nameOf node ∉ d.registry.building →
          Call.Makes ctx (.draw d) (.build d.node d.registry) ∧
            Call.Makes ctx (.build d.node d.registry)
              (.draw ⟨d.node, {}, .start ctx (ctx.nameOf node), d.registry.opened (ctx.nameOf node)⟩)) := by
  refine ⟨ctx.terminates, ?_, ?_⟩
  · intro i hi
    have ht : ctx.forest.Tidy := hf ▸ NormalizedScene.tidy_ofCanvas o canvas
    have hsize : ctx.forest.size = canvas.keptLayers.length :=
      hf ▸ (NormalizedScene.lists_ofCanvas o canvas).size_eq
    have hlt := Forest.weight_lt_size ht hi
    rw [buildHeight]
    omega
  · intro hp d node found inside root unfinished unopened
    exact ⟨Draw.makes_nested hp found inside root, .body found unfinished unopened⟩

/-- A card in a card, whose build fails: the inner card is drawn, and then built at the same node. -/
theorem terminates_drawnCards :
    drawnCards.forest = (NormalizedScene.ofCanvas {} nestedCards).forest ∧ drawnCards.Terminates ∧
      buildHeight drawnCards 0 < 9 ∧
      ∃ d : Draw, d.node = 2 ∧ Call.Makes drawnCards (.draw d) (.build 2 {}) := by
  have hf : drawnCards.forest = (NormalizedScene.ofCanvas {} nestedCards).forest := rfl
  obtain ⟨hends, hheight, hnested⟩ := terminates_of_canvas hf
  obtain ⟨parent, -⟩ : ∃ node, drawnCards.forest.get? 0 = some node := ⟨_, rfl⟩
  obtain ⟨node, found, root⟩ : ∃ node, drawnCards.forest.get? 2 = some node ∧ node.attrs.isComponentRoot :=
    ⟨_, rfl, rfl⟩
  refine ⟨hf, hends, hheight 0 (by decide), ⟨2, { parent := some parent }, .start drawnCards "Card", {}⟩, rfl, ?_⟩
  exact (hnested rfl _ node found rfl root rfl List.not_mem_nil).1

end DesignCompiler

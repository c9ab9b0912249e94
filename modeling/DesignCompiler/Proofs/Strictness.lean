import DesignCompiler.Proofs.Answers
import DesignCompiler.Proofs.Failures
import DesignCompiler.Proofs.Masks

namespace DesignCompiler

open Step Relation

variable {ctx : Context}

def DesignError.Skippable (e : DesignError) : Prop := ∃ m, e = .markup m ∧ m.endsRun = false

namespace Context

def withStrict (b : Bool) (ctx : Context) : Context :=
  { ctx with options := { ctx.options with strictMarkup := b } }

theorem follows_drawVector (ctx : Context) (w : Work) (r : Registry) :
    Follows DesignError.Skippable (exec (drawVector (ctx.withStrict true)) (w, r))
      (exec (drawVector (ctx.withStrict false)) (w, r)) := by
  rw [exec_drawVector, exec_drawVector]
  unfold Work.drawVector
  dsimp only [withStrict]
  split
  · exact .refl _
  · split
    · exact .refl _
    · split
      · split <;> exact .refl _
      · split
        · exact .refl _
        · next e _ =>
          cases hends : e.endsRun with
          | true => exact .refl _
          | false => exact .inr ⟨_, _, rfl, e, rfl, hends⟩

theorem keepsStep_withStrict (ctx : Context) :
    (ctx.withStrict true).KeepsStep DesignError.Skippable (ctx.withStrict false) where
  forest_eq := rfl
  plugins_eq := rfl
  nameOf_eq _ := rfl
  start_eq _ := rfl
  ofBody_eq _ _ _ _ := rfl
  addDescription_eq _ := rfl
  style _ w _ p := by cases p <;> rfl
  vector _ w _ r := follows_drawVector ctx w r

end Context

section Scenes

variable {o o' : Options}

mutual

theorem Draft.addNode_congr (h : o.delimiters = o'.delimiters) (parent : Option Nat) (node : SceneNode)
    (d : Draft) : addNode o parent node d = addNode o' parent node d := by
  match node with
  | ⟨attrs, children⟩ =>
    rw [addNode, addNode]
    simp only [Draft.add, h, Draft.addChildren_congr h _ children]

theorem Draft.addChildren_congr (h : o.delimiters = o'.delimiters) (parent : Nat)
    (children : List SceneNode) (d : Draft) :
    addChildren o parent children d = addChildren o' parent children d := by
  match children with
  | [] => rw [addChildren, addChildren]
  | child :: rest =>
    rw [addChildren, addChildren]
    simp only [Draft.addNode_congr h _ child, Draft.addChildren_congr h _ rest]

end

theorem Draft.addComponents_congr (h : o.delimiters = o'.delimiters) (nodes : List SceneNode)
    (d : Draft) : addComponents o nodes d = addComponents o' nodes d := by
  induction nodes generalizing d with
  | nil => rw [addComponents, addComponents]
  | cons node rest ih => rw [addComponents, addComponents, ih, Draft.addNode_congr h]

theorem NormalizedScene.ofCanvas_congr (h : o.delimiters = o'.delimiters) (canvas : SceneNode) :
    ofCanvas o canvas = ofCanvas o' canvas := by
  simp only [ofCanvas, Draft.addComponents_congr h]

end Scenes

theorem NormalizedScene.lt_size_of_mem_roots (o : Options) (canvas : SceneNode) :
    ∀ i ∈ (ofCanvas o canvas).tree.roots, i < (ofCanvas o canvas).tree.size := by
  have hkept : Draft.Kept fun t => ∀ i ∈ t.roots, i < t.size := by
    constructor
    · intro t h attrs kind constraints params parent i hi
      rw [NodeTree.size_push]
      cases parent with
      | none =>
          rcases List.mem_append.1 hi with hi | hi
          · exact Nat.lt_succ_of_lt (h i hi)
          · rw [List.mem_singleton.1 hi]
            exact Nat.lt_succ_self _
      | some p => exact Nat.lt_succ_of_lt (h i hi)
    · intro t h target mask i hi
      rw [NodeTree.size_setMask]
      refine h i ?_
      unfold NodeTree.setMask at hi
      split at hi <;> exact hi
  exact hkept.addComponents o canvas.children {} fun i hi => nomatch hi

theorem Step.Tracks.discard {σ α : Type} {accepted : DesignError → Prop} {x y : Step σ α}
    (h : Tracks accepted x y) : Tracks accepted (discard x) (discard y) := by
  simp only [Functor.discard, map_const, Function.comp_apply, map_eq_pure_bind]
  exact h.bind fun _ => .refl _

theorem exec_discard_eq_error {σ α : Type} {x : Step σ α} {s t : σ} {e : DesignError} :
    exec (discard x) s = (.error e, t) ↔ exec x s = (.error e, t) := by
  rw [discard, map_const, Function.comp_apply, map_eq_pure_bind, exec_bind_eq_error]
  simp [exec_pure]

/-- The same questions, and related results whatever is answered. -/
inductive Conversation.Pairs {α β : Type} (R : α → β → Prop) : Conversation α → Conversation β → Prop
  | done {a : α} {b : β} (h : R a b) : Pairs R (.done a) (.done b)
  | ask {q : Question} {next : Except FetchError q.Answer → Conversation α}
      {next' : Except FetchError q.Answer → Conversation β}
      (h : ∀ answer, Pairs R (next answer) (next' answer)) : Pairs R (.ask q next) (.ask q next')

theorem Conversation.Pairs.bind {α β γ : Type} {R : β → γ → Prop} (c : Conversation α)
    {f : α → Conversation β} {g : α → Conversation γ} (h : ∀ a, Pairs R (f a) (g a)) :
    Pairs R (c >>= f) (c >>= g) := by
  induction c with
  | done a => exact h a
  | ask q next ih => exact .ask ih

theorem Conversation.Pairs.run {α β : Type} {R : α → β → Prop} {c : Conversation α} {d : Conversation β}
    (h : Pairs R c d) (source : Source) :
    (c.run source).1 = (d.run source).1 ∧ R (c.run source).2 (d.run source).2 := by
  induction h with
  | done h => exact ⟨rfl, h⟩
  | @ask q next next' _ ih =>
      obtain ⟨hasked, hresult⟩ := ih (source q)
      exact ⟨congrArg (q :: ·) hasked, hresult⟩

def Compilation.Relaxes (strict lenient : Except DesignError Compilation) : Prop :=
  strict = lenient ∨ ∃ e, strict = .error e ∧ e.Skippable

theorem Run.pairs_bind {α : Type} {x : Run α} {f g : α → Run Compilation}
    (h : ∀ a, (f a).run.Pairs Compilation.Relaxes (g a).run) :
    (x >>= f).run.Pairs Compilation.Relaxes (x >>= g).run := by
  rw [ExceptT.run_bind, ExceptT.run_bind]
  refine Conversation.Pairs.bind _ ?_
  rintro (e | a)
  · exact .done (.inl rfl)
  · exact h a

namespace Compiler

def withStrict (b : Bool) (c : Compiler) : Compiler :=
  { c with options := { c.options with strictMarkup := b } }

def ClosesTwice (c : Compiler) (markup : String) : Prop :=
  Markup.Element.parse markup = .error .closedTwice ∨
    c.rasterize markup c.options.imageScale = .error .closedTwice

variable (c : Compiler) (scene : NormalizedScene) (descriptions : Table String)
  (resources : Assets.Resources)

def context : Context where
  forest := scene.forest
  options := c.options
  resources
  descriptions
  plugins := c.plugins

theorem emit_eq : c.emit scene descriptions resources =
    (exec (buildAll (c.context scene descriptions resources)) {}).1.map fun _ =>
      let components :=
        (exec (buildAll (c.context scene descriptions resources)) {}).2.components.values
      { components
        files := components.flatMap fun d => (Output.ComponentText.ofComponent d).files c.options
        assets := resources.emitted } := rfl

theorem relaxes_emit : Compilation.Relaxes ((c.withStrict true).emit scene descriptions resources)
    ((c.withStrict false).emit scene descriptions resources) := by
  have hsteps := (c.context scene descriptions resources).keepsStep_withStrict.tracks_calls.2
  have hbuilds : Tracks DesignError.Skippable
      (buildAll ((c.withStrict true).context scene descriptions resources))
      (buildAll ((c.withStrict false).context scene descriptions resources)) :=
    Tracks.forM fun i _ => (hsteps i).discard
  rw [emit_eq, emit_eq]
  rcases hbuilds {} with heq | ⟨e, s, heq, hskippable⟩
  · rw [heq]
    exact .inl rfl
  · rw [heq]
    exact .inr ⟨e, rfl, hskippable⟩

theorem pairs_compileCanvas (canvas : SceneNode) :
    ((c.withStrict true).compileCanvas canvas).run.Pairs Compilation.Relaxes
      ((c.withStrict false).compileCanvas canvas).run := by
  have hdelimiters : (c.withStrict true).options.delimiters = (c.withStrict false).options.delimiters :=
    rfl
  rw [compileCanvas, compileCanvas, NormalizedScene.ofCanvas_congr hdelimiters canvas]
  refine Run.pairs_bind fun _ => Run.pairs_bind fun descriptions => Run.pairs_bind fun resources => ?_
  exact .done (c.relaxes_emit _ descriptions resources)

theorem pairs_compile : (c.withStrict true).compile.run.Pairs Compilation.Relaxes
    (c.withStrict false).compile.run :=
  Run.pairs_bind fun _ => Run.pairs_bind fun canvas => c.pairs_compileCanvas canvas

variable {c} {e : DesignError} {log : List Exchange}

/-- What a lenient run can fail with when its options are right and all that it asks is answered. -/
inductive Ends (c : Compiler) (log : List Exchange) : DesignError → Prop
  | recursive (name : String) : Ends c log (.compile (.recursiveComponent name))
  | closedTwice (id : String) {markup : String} (read : Assets.Reads log markup)
      (closes : c.ClosesTwice markup) : Ends c log (.markup (.closedTwice id))

theorem Ends.append (h : c.Ends log e) (before : List Exchange) : c.Ends (before ++ log) e := by
  cases h with
  | recursive name => exact .recursive name
  | closedTwice id read closes => exact .closedTwice id (read.append before) closes

theorem ends_of_emit {o : Options} {canvas : SceneNode} {descriptions : Table String}
    {resources : Assets.Resources} (hlenient : c.options.strictMarkup = false)
    (hreads : ∀ id markup, resources.vectors.lookup id = some markup → Assets.Reads log markup)
    (h : c.emit (.ofCanvas o canvas) descriptions resources = .error e) : c.Ends log e := by
  rw [emit_eq] at h
  rcases hbuilds : exec (buildAll (c.context (.ofCanvas o canvas) descriptions resources)) {}
    with ⟨e' | u, s⟩ <;> rw [hbuilds] at h <;> cases h
  obtain ⟨before, i, after, r, hroots, -, hi⟩ := exec_forM_eq_error.1 hbuilds
  have hfails : (Call.build i r).Fails (c.context (.ofCanvas o canvas) descriptions resources) e :=
    ⟨s, exec_discard_eq_error.1 hi⟩
  have hlt : i < (NormalizedScene.ofCanvas o canvas).tree.size :=
    NormalizedScene.lt_size_of_mem_roots o canvas i (by
      rw [show (NormalizedScene.ofCanvas o canvas).tree.roots = before ++ i :: after from hroots]
      simp)
  have hfound : ((c.context (.ofCanvas o canvas) descriptions resources).forest.get? i).isSome :=
    Option.isSome_of_eq_some (Array.getElem?_eq_getElem hlt)
  obtain ⟨name, rfl⟩ | ⟨id, markup, rfl, hlookup, hparse⟩ := hfails.cases_of_lenient hlenient hfound
  · exact .recursive name
  · exact .closedTwice id (hreads id markup hlookup) (.inl hparse)

theorem gives_checkOptions (hvalid : c.options.validate = .ok ()) :
    Gives (fun _ _ => True) c.checkOptions := by
  intro log result h
  obtain ⟨rfl, -⟩ := Conversation.Answered.of_pure h
  rw [hvalid]
  exact ⟨(), rfl, trivial⟩

theorem gives_descriptions (ids : List String) :
    Gives (fun _ _ => True) (Compiler.descriptions ids) := by
  unfold Compiler.descriptions
  split
  · exact Gives.pure trivial
  · exact (gives_ask (.descriptions ids)).mono fun _ _ _ => trivial

theorem answered_rest {α β : Type} {x : Run α} {f : α → Run β} (hx : Gives (fun _ _ => True) x)
    (h : (x >>= f).run.Answered log (.error e)) :
    ∃ before after a, log = before ++ after ∧ (f a).run.Answered after (.error e) := by
  rcases answered_bind h with ⟨e', he, -⟩ | ⟨before, after, a, rfl, -, h⟩
  · obtain ⟨a, heq, -⟩ := hx _ _ he
    cases heq
  · exact ⟨before, after, a, rfl, h⟩

theorem ends_of_compileCanvas {canvas : SceneNode} (hlenient : c.options.strictMarkup = false)
    (hvalid : c.options.validate = .ok ()) (h : (c.compileCanvas canvas).run.Answered log (.error e)) :
    c.Ends log e := by
  obtain ⟨before, log, _, rfl, hrun⟩ := answered_rest (gives_checkOptions hvalid) h
  obtain ⟨before', log, descriptions, rfl, hrun'⟩ := answered_rest (gives_descriptions _).toRun hrun
  refine ((?_ : c.Ends log e).append before').append before
  rcases answered_bind hrun' with ⟨e', he, heq⟩ | ⟨asked, after, resources, rfl, hresources, hemit⟩
  · cases heq
    obtain ⟨⟨result, p⟩, hresult, rfl⟩ := Conversation.Answered.of_map he
    obtain ⟨resources, heq, -⟩ | ⟨id, markup, heq, hread, hclosed⟩ :=
      Assets.Resolver.answered_resolve hresult
    · cases heq
    · cases heq
      exact .closedTwice id hread (.inr hclosed)
  · obtain ⟨⟨result, p⟩, hresult, heq⟩ := Conversation.Answered.of_map hresources
    obtain ⟨resources', rfl, hreads⟩ | ⟨id, markup, rfl, -⟩ :=
      Assets.Resolver.answered_resolve hresult
    · cases heq
      obtain ⟨heq, rfl⟩ := Conversation.Answered.of_pure hemit
      rw [List.append_nil]
      exact ends_of_emit hlenient hreads heq.symm
    · cases heq

theorem ends_of_compile (hlenient : c.options.strictMarkup = false) (hvalid : c.options.validate = .ok ())
    (h : c.compile.run.Answered log (.error e)) : c.Ends log e := by
  obtain ⟨before, log, _, rfl, hrun⟩ := answered_rest (gives_checkOptions hvalid) h
  have hcanvas : Gives (fun _ _ => True) (Question.ask .canvas).toRun :=
    (gives_ask .canvas).toRun.mono fun _ _ _ => trivial
  obtain ⟨before', log, canvas, rfl, hrun'⟩ := answered_rest hcanvas hrun
  exact ((ends_of_compileCanvas hlenient hvalid hrun').append before').append before

end Compiler

/-- Whatever is answered, a strict run and a lenient run ask the same and have the same result, unless the
strict one ends at markup that the lenient one passes over. With valid options and answers to all that
is asked, a lenient run fails only by recursion, or by markup that closes its root twice. -/
theorem strict_only_ends_at_markup (c : Compiler) :
    (c.withStrict true).compile.run.Pairs Compilation.Relaxes (c.withStrict false).compile.run ∧
      (c.options.validate = .ok () → ∀ log e,
        (c.withStrict false).compile.run.Answered log (.error e) → (c.withStrict false).Ends log e) :=
  ⟨c.pairs_compile, fun hvalid _ _ h => Compiler.ends_of_compile rfl hvalid h⟩

def cardOverIcon : SceneNode where
  attrs := { id := "0:0", name := "Page", kind := .canvas }
  children :=
    [{ attrs := { id := "1", name := "#Card" }
       children := [{ attrs := { id := "2", name := "icon", kind := .vector } }] }]

def markupSource (markup : String) : (q : Question) → q.Answer
  | .canvas => cardOverIcon
  | .descriptions _ => []
  | .exports _ => [("2", some "icon.svg")]
  | .fills => []
  | .fetch _ => { bytes := Bytes.ofString markup }

def drawingCompiler : Compiler where
  rasterize := Picture.rasterize

def twiceClosed : String := "<!DOCTYPE r [<!ENTITY e \"<a/></svg>\">]><svg>&e;</svg>"

theorem run_twiceClosed :
    (drawingCompiler.compile.run.run fun q => .ok (markupSource twiceClosed q)).2.map (fun _ => ()) =
      .error (.markup (.closedTwice "2")) := by
  decide +kernel

theorem exists_answered_twiceClosed :
    ∃ log, drawingCompiler.compile.run.Answered log (.error (.markup (.closedTwice "2"))) := by
  obtain ⟨log, h⟩ := Conversation.exists_answered (markupSource twiceClosed) drawingCompiler.compile.run
  have hrun := run_twiceClosed
  rcases hresult : (drawingCompiler.compile.run.run fun q => .ok (markupSource twiceClosed q)).2
    with e | out <;> rw [hresult] at hrun <;> cases hrun
  exact ⟨log, hresult ▸ h⟩

theorem strict_only_ends_at_icon :
    (∃ log, (drawingCompiler.withStrict false).Ends log (.markup (.closedTwice "2"))) ∧
      ∀ source : Source, ((drawingCompiler.withStrict true).compile.run.run source).1 =
        ((drawingCompiler.withStrict false).compile.run.run source).1 := by
  obtain ⟨hpairs, hends⟩ := strict_only_ends_at_markup drawingCompiler
  obtain ⟨log, hlog⟩ := exists_answered_twiceClosed
  exact ⟨⟨log, hends rfl log _ hlog⟩, fun source => (hpairs.run source).1⟩

/-- A lenient run with valid options and answers to all that it asks can fail without a recursion. -/
theorem not_forall_lenient_recursive :
    ¬ ∀ (c : Compiler) (log : List Exchange) (e : DesignError), c.options.strictMarkup = false →
      c.options.validate = .ok () → c.compile.run.Answered log (.error e) →
        ∃ name, e = .compile (.recursiveComponent name) := by
  intro h
  obtain ⟨log, hlog⟩ := exists_answered_twiceClosed
  obtain ⟨name, hname⟩ := h drawingCompiler log _ rfl rfl hlog
  cases hname

end DesignCompiler

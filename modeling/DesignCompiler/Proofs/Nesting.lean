import DesignCompiler.Proofs.Termination
import DesignCompiler.Proofs.Traversal
import DesignCompiler.Proofs.Written

namespace DesignCompiler

open Step

variable {ctx : Context}

structure Printer where
  out : String := ""
  depth : Nat := 0

namespace Printer

variable {stem : String} {p : Printer}

def push (p : Printer) (text : String) : Printer := { p with out := p.out ++ text }

def line (p : Printer) (text : String) : Printer :=
  (Text.lines text).foldl (fun p l => ((p.push (Markup.tabs p.depth)).push l).push "\n") p

def enter (p : Printer) (text : String) : Printer := { p.line text with depth := p.depth + 1 }

def leave (p : Printer) (text : String) : Printer := { p with depth := p.depth - 1 }.line text

def enterWrappers (stem : String) (outer : Option Rule) (middle : Head) (inner : Option Rule) (p : Printer) :
    Nat × Printer :=
  let (closers, p) :=
    match outer with
    | some r => (1, p.enter ("<div className='" ++ r.className stem ++ "'>"))
    | none => (0, p)
  let (closers, p) := (closers + 1, p.enter ("<div" ++ middle.text stem ++ ">"))
  match inner with
  | some r => (closers + 1, p.enter ("<div className='" ++ r.className stem ++ "'>"))
  | none => (closers, p)

def fragments (stem : String) (p : Printer) (fs : List Fragment) : Printer :=
  fs.foldl (fun p f => p.line (f.text stem)) p

mutual

def visit (stem : String) (p : Printer) : Rendered → Printer
  | ⟨_, outer, middle, inner, prelude, children, content⟩ =>
    let (closers, p) := enterWrappers stem outer middle inner p
    let p := p.fragments stem prelude
    let p := visitAll stem p children
    let p := p.fragments stem content
    (fun p => p.leave "</div>")^[closers] p

def visitAll (stem : String) (p : Printer) : List Rendered → Printer
  | [] => p
  | r :: rest => visitAll stem (visit stem p r) rest

end

theorem line_eq (p : Printer) (text : String) :
    p.line text = { p with out := p.out ++ String.join ((Line.ofText p.depth text).map Line.print) } := by
  have hfold : ∀ (ls : List String) (p : Printer),
      ls.foldl (fun p l => ((p.push (Markup.tabs p.depth)).push l).push "\n") p =
        { p with out := p.out ++ String.join ((ls.map (Line.mk p.depth)).map Line.print) } := by
    intro ls
    induction ls with
    | nil => intro p; simp
    | cons l ls ih =>
        intro p
        rw [List.foldl_cons, ih]
        simp only [push, List.map_cons, String.join_cons, Line.print, String.append_assoc]
  exact hfold _ p

def write (stem : String) (p : Printer) : Tag → Printer
  | .opening _ w => p.enter (w.text stem)
  | .fragment _ f => p.line (f.text stem)
  | .closing .. => p.leave "</div>"

def run (stem : String) (p : Printer) (tags : List Tag) : Printer := tags.foldl (write stem) p

theorem run_append (stem : String) (p : Printer) (ts us : List Tag) :
    p.run stem (ts ++ us) = (p.run stem ts).run stem us := List.foldl_append

theorem write_eq (stem : String) (p : Printer) (t : Tag) :
    p.write stem t =
      { out := p.out ++ String.join ((t.line stem p.depth).map Line.print), depth := t.next p.depth } := by
  cases t with
  | opening node w => rw [write, enter, line_eq]; rfl
  | fragment node f => rw [write, line_eq]; rfl
  | closing node w => rw [write, leave, line_eq]; rfl

theorem run_eq (stem : String) (p : Printer) (ts : List Tag) :
    p.run stem ts =
      { out := p.out ++ String.join ((Tag.lines stem p.depth ts).map Line.print)
        depth := Tag.depthAfter p.depth ts } := by
  induction ts generalizing p with
  | nil => simp [run, Tag.lines, Tag.depthAfter]
  | cons t ts ih =>
      change (p.write stem t).run stem ts = _
      rw [ih, write_eq, Tag.lines, List.map_append, String.join_append, String.append_assoc]
      rfl

theorem enterWrappers_eq (stem : String) (r : Rendered) (p : Printer) :
    enterWrappers stem r.outer r.middle r.inner p =
      (r.wrappers.length, p.run stem (r.wrappers.map (Tag.opening r.node))) := by
  obtain ⟨node, outer, middle, inner, prelude, children, content⟩ := r
  cases outer <;> cases inner <;> rfl

theorem fragments_eq (stem : String) (node : Nat) (p : Printer) (fs : List Fragment) :
    p.fragments stem fs = p.run stem (fs.map (Tag.fragment node)) := by
  rw [fragments, run, List.foldl_map]
  rfl

theorem iterate_leave_eq (stem : String) (node : Nat) (p : Printer) (ws : List Wrapper) :
    (fun p => p.leave "</div>")^[ws.length] p = p.run stem (ws.map (Tag.closing node)) := by
  induction ws generalizing p with
  | nil => rfl
  | cons w ws ih =>
      rw [List.length_cons, Function.iterate_succ_apply, ih]
      rfl

theorem visitAll_eq (stem : String) (p : Printer) (rs : List Rendered) :
    visitAll stem p rs = rs.foldl (visit stem) p := by
  induction rs generalizing p with
  | nil => rw [visitAll]; rfl
  | cons r rs ih => rw [visitAll, ih]; rfl

theorem visit_eq_run (stem : String) (p : Printer) (r : Rendered) :
    p.visit stem r = p.run stem r.tags := by
  induction r using Rendered.induction_children generalizing p with
  | step r ih =>
      have hchildren : ∀ p : Printer, visitAll stem p r.children =
          p.run stem (r.children.flatMap Rendered.tags) := by
        intro p
        rw [visitAll_eq, run, List.foldl_flatMap]
        exact List.foldl_ext _ _ p fun q c hc => ih c hc q
      have hvisit : p.visit stem r =
          (fun p => p.leave "</div>")^[(enterWrappers stem r.outer r.middle r.inner p).1]
            ((visitAll stem ((enterWrappers stem r.outer r.middle r.inner p).2.fragments stem r.prelude)
              r.children).fragments stem r.content) := by
        cases r
        rw [visit]
      rw [hvisit, enterWrappers_eq, fragments_eq stem r.node, hchildren, fragments_eq stem r.node,
        ← List.length_reverse, iterate_leave_eq stem r.node, Rendered.tags_eq_head_foot, Rendered.head,
        Rendered.foot]
      simp only [run_append]

theorem visit_eq (stem : String) (p : Printer) (r : Rendered) :
    p.visit stem r =
      { p with out := p.out ++ String.join ((r.lines stem p.depth).map Line.print) } := by
  obtain ⟨hdepth, hlines⟩ := r.prints_tags stem p.depth
  rw [visit_eq_run, run_eq, hdepth, hlines]

end Printer

/-- The markup of a component is what a new printer leaves. -/
theorem Component.markup_eq_visit (c : Component) :
    c.markup = (Printer.visit c.scope.classPrefix {} c.body).out := by
  rw [Printer.visit_eq, markup, Rendered.print, String.empty_append]

namespace Tag

variable {stem : String} {opened : List (Nat × Wrapper)} {t : Tag} {before rest : List Tag} {base : Nat}
  {p : Printer}

def openedBy (opened : List (Nat × Wrapper)) : Tag → List (Nat × Wrapper)
  | .opening node w => (node, w) :: opened
  | .fragment .. => opened
  | .closing .. => opened.tail

def wrappersAfter (opened : List (Nat × Wrapper)) (tags : List Tag) : List (Nat × Wrapper) :=
  tags.foldl openedBy opened

/-- The tags close all that is open and all that they open, the innermost first. -/
inductive Nests : List (Nat × Wrapper) → List Tag → Prop
  | nil : Nests [] []
  | opening {opened : List (Nat × Wrapper)} {rest : List Tag} {node : Nat} {w : Wrapper}
      (h : Nests ((node, w) :: opened) rest) : Nests opened (.opening node w :: rest)
  | fragment {opened : List (Nat × Wrapper)} {rest : List Tag} {node : Nat} {f : Fragment}
      (h : Nests opened rest) : Nests opened (.fragment node f :: rest)
  | closing {opened : List (Nat × Wrapper)} {rest : List Tag} {node : Nat} {w : Wrapper}
      (h : Nests opened rest) : Nests ((node, w) :: opened) (.closing node w :: rest)

namespace Nests

theorem openings (node : Nat) (ws : List Wrapper)
    (h : Nests (ws.reverse.map (node, ·) ++ opened) rest) :
    Nests opened (ws.map (.opening node) ++ rest) := by
  induction ws generalizing opened with
  | nil => exact h
  | cons w ws ih =>
      rw [List.reverse_cons, List.map_append, List.append_assoc] at h
      exact .opening (ih h)

theorem closings (node : Nat) (ws : List Wrapper) (h : Nests opened rest) :
    Nests (ws.map (node, ·) ++ opened) (ws.map (.closing node) ++ rest) := by
  induction ws with
  | nil => exact h
  | cons w ws ih => exact .closing ih

theorem fragments (node : Nat) (fs : List Fragment) (h : Nests opened rest) :
    Nests opened (fs.map (.fragment node) ++ rest) := by
  induction fs with
  | nil => exact h
  | cons f fs ih => exact .fragment ih

theorem flatMap {α : Type} {l : List α} {f : α → List Tag}
    (hf : ∀ a ∈ l, ∀ {rest}, Nests opened rest → Nests opened (f a ++ rest)) (h : Nests opened rest) :
    Nests opened (l.flatMap f ++ rest) := by
  induction l with
  | nil => exact h
  | cons a l ih =>
      rw [List.flatMap_cons, List.append_assoc]
      exact hf a List.mem_cons_self (ih fun b hb => hf b (List.mem_cons_of_mem a hb))

theorem of_cons (h : Nests opened (t :: rest)) : Nests (t.openedBy opened) rest := by
  cases h with
  | opening h => exact h
  | fragment h => exact h
  | closing h => exact h

theorem of_append (h : Nests opened (before ++ rest)) : Nests (wrappersAfter opened before) rest := by
  induction before generalizing opened with
  | nil => exact h
  | cons t before ih => exact ih h.of_cons

theorem exists_of_closing {node : Nat} {w : Wrapper} (h : Nests opened (.closing node w :: rest)) :
    ∃ below, opened = (node, w) :: below := by
  cases h with
  | closing h => exact ⟨_, rfl⟩

/-- The step: a closing tag has its own wrapper to close, so that the depth goes down by one. -/
theorem depth_write (h : Nests opened (t :: rest)) (hp : p.depth = base + opened.length) :
    (p.write stem t).depth = base + (t.openedBy opened).length := by
  rw [Printer.write_eq]
  cases h with
  | opening h => exact congrArg (· + 1) hp
  | fragment h => exact hp
  | closing h => exact congrArg (· - 1) hp

/-- The run: the depth is always the number of wrappers that are open. -/
theorem depth_run (h : Nests opened (before ++ rest)) (hp : p.depth = base + opened.length) :
    (p.run stem before).depth = base + (wrappersAfter opened before).length := by
  induction before generalizing opened p with
  | nil => exact hp
  | cons t before ih => exact ih h.of_cons (h.depth_write hp)

end Nests

end Tag

namespace Rendered

variable {opened : List (Nat × Wrapper)} {rest : List Tag}

theorem nests_tags_append (r : Rendered) (h : Tag.Nests opened rest) : Tag.Nests opened (r.tags ++ rest) := by
  induction r using induction_children generalizing opened rest with
  | step r ih =>
      rw [tags_eq_head_foot, head, foot]
      simp only [List.append_assoc]
      refine .openings _ _ (.fragments _ _ (.flatMap ?_ (.fragments _ _ (.closings _ _ h))))
      intro c hc rest hrest
      exact ih c hc hrest

theorem nests_tags (r : Rendered) : Tag.Nests [] r.tags := by
  have h := r.nests_tags_append .nil
  rwa [List.append_nil] at h

theorem depth_run {stem : String} {p : Printer} {r : Rendered} {before after : List Tag}
    (h : r.tags = before ++ after) :
    (p.run stem before).depth = p.depth + (Tag.wrappersAfter [] before).length := by
  have hnests : Tag.Nests [] (before ++ after) := h ▸ r.nests_tags
  exact hnests.depth_run rfl

end Rendered

namespace Draw

variable {d : Draw} {r : Rendered}

/-- The tags of a drawing: the wrappers that its styles ask for around its fragments and the tags of the
drawings of its children, one for each turn. -/
inductive Writes (ctx : Context) : Draw → List Tag → Prop
  | visit {d : Draw} {node : Node} {v : Visit} {s : Scope × Registry} {outer inner : Option Rule}
      {middle : Head} {es : List Draw} {blocks : List (List Tag)}
      (found : ctx.forest.get? d.node = some node)
      (drawn : exec ((Visit.start node d.place).draw ctx (nestedBuild ctx d.node d.place))
        (d.scope, d.registry) = (.ok v, s))
      (outer_iff : outer.isSome ↔ v.finish.outer ≠ [])
      (inner_iff : inner.isSome ↔ v.finish.inner ≠ [])
      (middle_id : middle.id = node.attrs.id)
      (turns : List.Forall₂ (fun (t : Turn) e => e.node = t.node ∧ d.Draws ctx e)
        (if v.finish.cleared then [] else (ctx.forest.buckets d.node).turns) es)
      (children : List.Forall₂ (Writes ctx) es blocks) :
      Writes ctx d <|
        Tag.around? node.index (outer.map .outer) <|
          Tag.around node.index (.middle middle) <|
            Tag.around? node.index (inner.map .inner) <|
              v.finish.prelude.map (.fragment node.index) ++ blocks.flatten
                ++ v.finish.content.map (.fragment node.index)

theorem induction_draws (ctx : Context) {motive : Draw → Prop}
    (step : ∀ d, (∀ e, d.Draws ctx e → motive e) → motive d) (d : Draw) : motive d := by
  have hwf : WellFounded fun e d : Draw => d.Draws ctx e :=
    Subrelation.wf (fun h => Call.Makes.child h) (InvImage.wf Call.draw (Call.wellFounded_makes ctx))
  exact hwf.induction d step

end Draw

theorem Rule.isSome_of? {number : Nat} {style : StyleMap} : (Rule.of? number style).isSome ↔ style ≠ [] := by
  rw [Rule.of?]
  cases style <;> simp

theorem Step.exists_forall₂_of_exec_mapM {σ α β γ : Type} {R : α → γ → Prop} {S : γ → β → Prop}
    {f : α → Step σ β} {l : List α} {bs : List β} {s u : σ} (h : exec (l.mapM f) s = (.ok bs, u))
    (hf : ∀ before a after cs t b v, l = before ++ a :: after → exec (before.mapM f) s = (.ok cs, t) →
      exec (f a) t = (.ok b, v) → ∃ c, R a c ∧ S c b) :
    ∃ cs, List.Forall₂ R l cs ∧ List.Forall₂ S cs bs := by
  induction l generalizing bs s with
  | nil =>
      rw [List.mapM_nil, exec_pure] at h
      cases h
      exact ⟨[], .nil, .nil⟩
  | cons a l ih =>
      obtain ⟨b, t, bs', hb, hbs', rfl⟩ := exec_mapM_cons_eq_ok.1 h
      obtain ⟨c, hR, hS⟩ := hf [] a l [] s b t rfl rfl hb
      obtain ⟨cs, hRs, hSs⟩ := ih hbs' fun before a' after ds t' b' v hsplit hbefore =>
        hf (a :: before) a' after (b :: ds) t' b' v (congrArg (a :: ·) hsplit)
          (exec_mapM_cons_eq_ok.2 ⟨b, t, ds, hb, hbefore, rfl⟩)
      exact ⟨c :: cs, .cons hR hRs, .cons hS hSs⟩

theorem exists_drawn_of_enterNode {i : Nat} {node : Node} {place : Place} {cleared : Bool} {r : Rendered}
    {s t : Scope × Registry} (h : exec (enterNode ctx i node place) s = (.ok (cleared, r), t)) :
    ∃ v u, exec ((Visit.start node place).draw ctx (nestedBuild ctx i place)) s = (.ok v, u) ∧
      cleared = v.finish.cleared ∧ r = (v.finish.openWrappers u.1).1 := by
  obtain ⟨v, u, hv, h⟩ := exec_bind_eq_ok.1 h
  obtain ⟨r', u', hr, h⟩ := exec_bind_eq_ok.1 h
  rw [exec_pure] at h
  cases h
  cases hr
  exact ⟨v, u, hv, rfl, rfl⟩

namespace Draw

variable {d : Draw} {r : Rendered}

theorem writes_of_enterNode (hp : ctx.plugins = {}) {node : Node} {cleared : Bool} {rendered : Rendered}
    {t : Scope × Registry} {es : List Draw} {children : List Rendered}
    (found : ctx.forest.get? d.node = some node)
    (entered : exec (enterNode ctx d.node node d.place) (d.scope, d.registry) = (.ok (cleared, rendered), t))
    (turns : List.Forall₂ (fun (t : Turn) e => e.node = t.node ∧ d.Draws ctx e)
      (if cleared then [] else (ctx.forest.buckets d.node).turns) es)
    (drawn : List.Forall₂ (fun e c => Writes ctx e (Rendered.tags c)) es children) :
    d.Writes ctx ({ rendered with children } : Rendered).tags := by
  obtain ⟨-, ⟨hindex, hid⟩, -⟩ := exists_places_of_enterNode hp entered
  obtain ⟨v, u, hv, rfl, rfl⟩ := exists_drawn_of_enterNode entered
  have houter : (v.finish.openWrappers u.1).1.outer.isSome ↔ v.finish.outer ≠ [] := by
    rw [Visit.openWrappers_eq]
    exact Rule.isSome_of?
  have hinner : (v.finish.openWrappers u.1).1.inner.isSome ↔ v.finish.inner ≠ [] := by
    rw [Visit.openWrappers_eq]
    exact Rule.isSome_of?
  have hblocks : List.Forall₂ (Writes ctx) es (children.map Rendered.tags) :=
    List.forall₂_map_right_iff.2 drawn
  rw [Rendered.tags_eq, List.flatMap_def]
  dsimp only
  rw [hindex]
  exact .visit found hv houter hinner hid turns hblocks

theorem Gives.writes (hp : ctx.plugins = {}) (h : d.Gives ctx r) : d.Writes ctx r.tags := by
  induction d using induction_draws ctx generalizing r with
  | step d ih =>
      obtain ⟨node, rendered, s, found, ⟨entered, rfl⟩ | ⟨entered, children, t, hturns, rfl⟩⟩ := h.cases
      · have hwrites := writes_of_enterNode hp found entered .nil .nil
        rw [← children_of_enterNode entered] at hwrites
        cases r
        exact hwrites
      · obtain ⟨es, hes, hchildren⟩ := exists_forall₂_of_exec_mapM hturns
          (R := fun t e => e.node = t.node ∧ d.Draws ctx e) (S := fun e c => e.Writes ctx c.tags)
          (fun before turn after cs u c w hsplit hbefore hc => by
            have hdraws := Draws.child found entered hsplit hbefore
            exact ⟨_, ⟨rfl, hdraws⟩, ih _ hdraws ⟨w, hc⟩⟩)
        exact writes_of_enterNode hp found entered hes hchildren

/-- How a printer goes through a drawn node. -/
structure Emits (ctx : Context) (stem : String) (d : Draw) (r : Rendered) (p : Printer) : Prop where
  depth_eq : (p.visit stem r).depth = p.depth
  out_eq : (p.visit stem r).out = p.out ++ String.join ((r.lines stem p.depth).map Line.print)
  run_eq : p.visit stem r = p.run stem r.tags
  nests : Tag.Nests [] r.tags
  writes : d.Writes ctx r.tags
  closing : ∀ before node w after, r.tags = before ++ .closing node w :: after →
    p.depth < (p.run stem before).depth ∧
      ∃ around, Tag.wrappersAfter [] before = (node, w) :: around
  fragment : ∀ before node f after, r.tags = before ++ .fragment node f :: after →
    (p.run stem (before ++ [.fragment node f])).out = (p.run stem before).out ++ String.join
      ((Text.lines (f.text stem)).map fun l =>
        Markup.tabs (p.depth + (Tag.wrappersAfter [] before).length) ++ l ++ "\n")

end Draw

/-- Whatever tree it is in, a node whose drawing succeeds is printed in balanced wrappers, and each line
of a fragment is indented by the wrappers around it. -/
theorem emits_of_gives (hp : ctx.plugins = {}) {d : Draw} {r : Rendered} (h : d.Gives ctx r)
    (stem : String) (p : Printer) : d.Emits ctx stem r p where
  depth_eq := by rw [Printer.visit_eq]
  out_eq := by rw [Printer.visit_eq]
  run_eq := p.visit_eq_run stem r
  nests := r.nests_tags
  writes := h.writes hp
  closing before node w after hsplit := by
    have hnests : Tag.Nests [] (before ++ .closing node w :: after) := hsplit ▸ r.nests_tags
    obtain ⟨around, haround⟩ := hnests.of_append.exists_of_closing
    refine ⟨?_, around, haround⟩
    rw [Rendered.depth_run hsplit, haround]
    exact Nat.lt_add_of_pos_right (Nat.succ_pos _)
  fragment before node f after hsplit := by
    rw [Printer.run_append]
    change ((p.run stem before).line (f.text stem)).out = _
    rw [Printer.line_eq, Rendered.depth_run hsplit, Line.ofText, List.map_map]
    rfl

theorem wrappers_cardWithPhoto :
    (exec (drawNode cardWithPhoto 0 {}) (.start cardWithPhoto "Card", {})).1.toOption.map
      (fun r => r.subtrees.map fun d => d.wrappers.length) = some [2, 2, 2] := by
  decide +kernel

theorem emits_cardWithPhoto :
    ∃ r, cardWithPhoto.plugins = {} ∧
      Draw.Gives cardWithPhoto ⟨0, {}, .start cardWithPhoto "Card", {}⟩ r ∧
      Draw.Emits cardWithPhoto "figma" ⟨0, {}, .start cardWithPhoto "Card", {}⟩ r {} ∧
      r.subtrees.map (fun d => d.wrappers.length) = [2, 2, 2] := by
  have hwrappers := wrappers_cardWithPhoto
  rcases hr : (exec (drawNode cardWithPhoto 0 {}) (.start cardWithPhoto "Card", {})).1 with e | r <;>
    rw [hr] at hwrappers
  · cases hwrappers
  · have hgives : Draw.Gives cardWithPhoto ⟨0, {}, .start cardWithPhoto "Card", {}⟩ r :=
      ⟨_, Prod.ext hr rfl⟩
    exact ⟨r, rfl, hgives, emits_of_gives rfl hgives "figma" {}, Option.some.inj hwrappers⟩

end DesignCompiler

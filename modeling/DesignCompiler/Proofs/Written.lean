import DesignCompiler.Proofs.Entries

namespace DesignCompiler

open Step

variable {ctx : Context}

def Rule.numbered (number : Nat) : List StyleMap → List (Option Rule)
  | [] => []
  | style :: rest => Rule.of? number style :: numbered (number + 1) rest

def Text.Piece.fragment (rule : Option Rule) : Text.Piece → Fragment
  | .run text _ _ key => .span rule key text
  | .lineBreak key => .lineBreak rule key
  | .blankLine key => .blankLine rule key

theorem Text.Piece.exists_of_mem_zipWith {rules : List (Option Rule)} {pieces : List Text.Piece}
    {f : Fragment} (h : f ∈ List.zipWith Text.Piece.fragment rules pieces) :
    ∃ rule ∈ rules, ∃ piece ∈ pieces, f = piece.fragment rule := by
  rw [← List.map_uncurry_zip_eq_zipWith] at h
  obtain ⟨⟨rule, piece⟩, hmem, rfl⟩ := List.mem_map.1 h
  obtain ⟨hrule, hpiece⟩ := List.of_mem_zip hmem
  exact ⟨rule, hrule, piece, hpiece, rfl⟩

theorem Text.Piece.fragment_spec (rule : Option Rule) (piece : Text.Piece) :
    (piece.fragment rule).isWritten ∧ (piece.fragment rule).rules = rule.toList ∧
      (piece.fragment rule).numbers = rule.toList.map Rule.number ∧ (piece.fragment rule).expressions = [] := by
  cases piece <;> exact ⟨rfl, rfl, rfl, rfl⟩

namespace RunOptions

variable (o : RunOptions)

def pieceStyle (styles : RunStyles) : Text.Piece → StyleMap
  | .run _ style index _ => o.runStyle style index ((styles.lookup style).getD [])
  | .lineBreak _ => lineBreakStyle
  | .blankLine _ => blankLineStyle

/-- What a run leaves to later runs of its number. -/
def leave (styles : RunStyles) : Text.Piece → RunStyles
  | .run _ style index _ => (style, o.runStyle style index ((styles.lookup style).getD [])) :: styles
  | _ => styles

def pieceStyles (styles : RunStyles) : List Text.Piece → List StyleMap
  | [] => []
  | piece :: rest => o.pieceStyle styles piece :: pieceStyles (o.leave styles piece) rest

end RunOptions

namespace Node

variable (node : Node)

def pieces : List Text.Piece := Text.runs (node.attrs.characters.getD "") node.attrs.styleOverrides

def textStyles : List StyleMap :=
  if node.kind ≠ .text then []
  else if node.params.contains "input" then [inputStyle]
  else (RunOptions.ofNode node).pieceStyles [] node.pieces

/-- The text of a node whose first class has this number; an input has attributes and classes too. -/
def written (number : Nat) (attributes : Table String) (classes : List ClassName) : List Fragment :=
  if node.kind ≠ .text then []
  else if node.params.contains "input" then
    [.input { id := node.attrs.id, properties := attributes, rule := Rule.of? number inputStyle, classes }
      ((Params.value? "input" node.params).getD "text")
      (Text.replace "\"" "&quot;" (node.attrs.characters.getD ""))]
  else List.zipWith Text.Piece.fragment (Rule.numbered number node.textStyles) node.pieces

end Node

theorem Node.cases_of_mem_written {node : Node} {number : Nat} {attributes : Table String}
    {classes : List ClassName} {f : Fragment} (hf : f ∈ node.written number attributes classes) :
    (node.textStyles = [inputStyle] ∧ ∃ type placeholder, f = .input
      { id := node.attrs.id, properties := attributes, rule := Rule.of? number inputStyle, classes }
      type placeholder) ∨
    ∃ rule ∈ Rule.numbered number node.textStyles, ∃ piece : Text.Piece, f = piece.fragment rule := by
  rw [written] at hf
  split at hf
  · cases hf
  · next hkind =>
    split at hf
    · next hinput =>
      refine .inl ⟨?_, _, _, List.mem_singleton.1 hf⟩
      rw [textStyles, if_neg hkind, if_pos hinput]
    · obtain ⟨rule, hrule, piece, -, rfl⟩ := Text.Piece.exists_of_mem_zipWith hf
      exact .inr ⟨rule, hrule, piece, rfl⟩

structure Work.Writes (styles : List StyleMap) (written : List Fragment) (attributes : Table String)
    (w w' : Work) : Prop where
  node_eq : w'.visit.node = w.visit.node
  classes_eq : w'.visit.classes = w.visit.classes
  prelude_eq : w'.visit.prelude = w.visit.prelude
  attributes_eq : w'.visit.properties = attributes
  content_eq : w'.visit.content = w.visit.content ++ written
  scope_eq : w'.scope = w.scope.addAll (styles.map .style)

namespace Work

theorem writes_drawPiece (o : RunOptions) (w : Work) (styles : RunStyles) (piece : Text.Piece) :
    Writes [o.pieceStyle styles piece] [piece.fragment (Rule.of? w.scope.nextClass (o.pieceStyle styles piece))]
      w.visit.properties w (w.drawPiece o styles piece).1 ∧
      (w.drawPiece o styles piece).2 = o.leave styles piece := by
  cases piece with
  | run text style index key =>
      simp only [drawPiece, addStyle, Scope.addStyle_eq]
      exact ⟨⟨rfl, rfl, rfl, rfl, rfl, rfl⟩, rfl⟩
  | lineBreak key =>
      simp only [drawPiece, addStyle, Scope.addStyle_eq]
      exact ⟨⟨rfl, rfl, rfl, rfl, rfl, rfl⟩, rfl⟩
  | blankLine key =>
      simp only [drawPiece, addStyle, Scope.addStyle_eq]
      exact ⟨⟨rfl, rfl, rfl, rfl, rfl, rfl⟩, rfl⟩

theorem writes_drawPieces (o : RunOptions) (w : Work) (styles : RunStyles) (pieces : List Text.Piece) :
    Writes (o.pieceStyles styles pieces)
      (List.zipWith Text.Piece.fragment (Rule.numbered w.scope.nextClass (o.pieceStyles styles pieces)) pieces)
      w.visit.properties w (w.drawPieces o styles pieces) := by
  induction pieces generalizing w styles with
  | nil => exact ⟨rfl, rfl, rfl, rfl, (List.append_nil _).symm, rfl⟩
  | cons piece pieces ih =>
      obtain ⟨hpiece, hstyles⟩ := writes_drawPiece o w styles piece
      have hrest := ih (w.drawPiece o styles piece).1 (w.drawPiece o styles piece).2
      have hnext : (w.drawPiece o styles piece).1.scope.nextClass = w.scope.nextClass + 1 := by
        rw [hpiece.scope_eq, Scope.nextClass_addAll]
        rfl
      rw [hstyles, hnext] at hrest
      change Writes _ _ _ w ((w.drawPiece o styles piece).1.drawPieces o (w.drawPiece o styles piece).2 pieces)
      rw [hstyles]
      refine ⟨hrest.node_eq.trans hpiece.node_eq, hrest.classes_eq.trans hpiece.classes_eq,
        hrest.prelude_eq.trans hpiece.prelude_eq, hrest.attributes_eq.trans hpiece.attributes_eq, ?_, ?_⟩
      · rw [hrest.content_eq, hpiece.content_eq, List.append_assoc]
        rfl
      · rw [hrest.scope_eq, hpiece.scope_eq, ← Scope.addAll_append]
        rfl

theorem writes_drawInput (w : Work) :
    Writes [inputStyle]
      [.input { id := w.visit.node.attrs.id, properties := w.visit.properties
                rule := Rule.of? w.scope.nextClass inputStyle, classes := w.visit.classes }
        ((Params.value? "input" w.visit.node.params).getD "text")
        (Text.replace "\"" "&quot;" (w.visit.node.attrs.characters.getD ""))] [] w w.drawInput := by
  simp only [drawInput, addStyle, Scope.addStyle_eq]
  exact ⟨rfl, rfl, rfl, rfl, rfl, rfl⟩

theorem writes_drawText (w : Work) :
    Writes w.visit.node.textStyles
      (w.visit.node.written w.scope.nextClass w.visit.properties w.visit.classes)
      (if w.visit.node.isInput then [] else w.visit.properties) w w.drawText := by
  let boxed := w.editVisit fun v =>
    { v with middle := textBox w.visit.node.attrs (v.params.contains "filterShadow") v.middle }
  -- The styles of the box do not matter to what is written in it.
  have hbox : ∀ {styles : List StyleMap} {written : List Fragment} {attributes : Table String} {w' : Work},
      Writes styles written attributes boxed w' → Writes styles written attributes w w' :=
    fun h => ⟨h.node_eq, h.classes_eq, h.prelude_eq, h.attributes_eq, h.content_eq, h.scope_eq⟩
  rw [drawText]
  dsimp only
  by_cases hkind : w.visit.node.kind = .text
  · by_cases hinput : w.visit.node.params.contains "input"
    · simp only [Node.textStyles, Node.written, Node.isInput, hkind, hinput, ne_eq, not_true, if_false,
        if_true, decide_true, Bool.and_self]
      exact hbox (writes_drawInput boxed)
    · simp only [Node.textStyles, Node.written, Node.isInput, hkind, hinput, ne_eq, not_true, if_false,
        decide_true, Bool.true_and, Bool.false_eq_true]
      exact hbox (writes_drawPieces _ boxed [] _)
  · simp only [Node.textStyles, Node.written, Node.isInput, hkind, ne_eq, not_false_eq_true, if_true,
      decide_false, Bool.false_and]
    exact ⟨rfl, rfl, rfl, rfl, (List.append_nil _).symm, rfl⟩

end Work

theorem Visit.openWrappers_eq (v : Visit) (s : Scope) :
    v.openWrappers s =
      ({ node := v.node.index
         outer := Rule.of? (s.nextClass + 1) v.outer
         middle := { id := v.sceneId, properties := v.properties, rule := Rule.of? s.nextClass v.middle
                     classes := v.classes }
         inner := Rule.of? (s.nextClass + 2) v.inner
         prelude := v.prelude, children := [], content := v.content },
        s.addAll [.style v.middle, .style v.outer, .style v.inner]) := by
  rw [Visit.openWrappers]
  simp only [Scope.addStyle_eq]
  have hmiddle : (s.add (.style v.middle)).nextClass = s.nextClass + 1 := s.nextClass_addStyle v.middle
  have houter : ((s.add (.style v.middle)).add (.style v.outer)).nextClass = s.nextClass + 2 :=
    (Scope.nextClass_addStyle _ v.outer).trans (congrArg (· + 1) hmiddle)
  rw [hmiddle, houter]
  rfl

theorem Rendered.without_children {r : Rendered} (h : r.children = []) : { r with children := [] } = r := by
  cases r
  cases h
  rfl

/-- Where the scope stands before a node is entered, when all its plugins have run, and after its
wrappers are opened. -/
structure Context.Enters (ctx : Context) (inside : Bool) (node : Node) (s : Scope) (v : Visit) (u : Scope)
    (d : Rendered) (t : Scope) : Prop where
  draws : ∃ i place q q', place.parent.isSome = inside ∧
    exec ((Visit.start node place).draw ctx (nestedBuild ctx i place)) (s, q) = (.ok v, (u, q'))
  opens : v.finish.openWrappers u = ({ d with children := [] }, t)

theorem exists_enters_of_enterNode {i : Nat} {node : Node} {place : Place} {cleared : Bool} {r : Rendered}
    {s t : Scope} {q q' : Registry}
    (h : exec (enterNode ctx i node place) (s, q) = (.ok (cleared, r), (t, q'))) :
    ∃ v u, ctx.Enters place.parent.isSome node s v u r t := by
  have hchildren := children_of_enterNode h
  obtain ⟨v, ⟨u, q₁⟩, hv, h⟩ := exec_bind_eq_ok.1 h
  obtain ⟨r', ⟨t', q₂⟩, hr, h⟩ := exec_bind_eq_ok.1 h
  rw [exec_pure] at h
  cases h
  refine ⟨v, u, ⟨i, place, q, q₁, rfl, hv⟩, ?_⟩
  have hopens : ((v.finish.openWrappers u).1, ((v.finish.openWrappers u).2, q₁)) = (r, (t, q')) := by
    have hr' : (Except.ok (ε := DesignError) (v.finish.openWrappers u).1,
        ((v.finish.openWrappers u).2, q₁)) = (.ok r, (t, q')) := hr
    simpa using hr'
  obtain ⟨hrendered, hscope⟩ := Prod.mk.inj hopens
  obtain ⟨hscope, -⟩ := Prod.mk.inj hscope
  rw [Rendered.without_children hchildren]
  exact Prod.ext hrendered hscope

/-- A drawn node is put together from what stands before its text, from its text and from its wrappers,
in this order of its classes. -/
structure Rendered.Composed (ctx : Context) (inside : Bool) (node : Node) (s : Scope) (i : Import) (w : Work)
    (v : Visit) (u : Scope) (d : Rendered) (t : Scope) : Prop where
  stands : w.Stands node s (ctx.entries inside node i) node.attributes
  text_eq : u = w.scope.addAll (node.textStyles.map .style)
  scope_eq : t = u.addAll [.style v.finish.middle, .style v.finish.outer, .style v.finish.inner]
  node_eq : d.node = node.index
  middle_eq : d.middle =
    { id := node.attrs.id, properties := if node.isInput then [] else node.attributes
      rule := Rule.of? u.nextClass v.finish.middle, classes := w.visit.classes }
  outer_eq : d.outer = Rule.of? (u.nextClass + 1) v.finish.outer
  inner_eq : d.inner = Rule.of? (u.nextClass + 2) v.finish.inner
  prelude_eq : d.prelude = w.visit.prelude
  content_eq : d.content =
    w.visit.content ++ node.written w.scope.nextClass node.attributes w.visit.classes

theorem Context.Enters.exists_composed (hp : ctx.plugins = {}) {inside : Bool} {node : Node} {s u t : Scope}
    {v : Visit} {d : Rendered} (h : ctx.Enters inside node s v u d t) :
    ∃ i w, d.Composed ctx inside node s i w v u t := by
  obtain ⟨j, place, q, q', rfl, hv⟩ := h.draws
  obtain ⟨i, w, hstands, rfl, rfl⟩ := exists_stands_of_draw hp hv
  rw [isSome_nestedBuild] at hstands
  have hwrites := w.writes_drawText
  rw [hstands.node_eq, hstands.attributes_eq] at hwrites
  have hfinish := Visit.Restyles.finish w.drawText.visit
  have hopens := h.opens
  rw [Visit.openWrappers_eq] at hopens
  obtain ⟨hrendered, hscope⟩ := Prod.mk.inj hopens
  obtain ⟨hnode, houter, hmiddle, hinner, hprelude, -, hcontent⟩ := Rendered.mk.inj hrendered
  have hsame : w.drawText.visit.finish.node = node ∧
      w.drawText.visit.finish.properties = (if node.isInput then [] else node.attributes) ∧
      w.drawText.visit.finish.classes = w.visit.classes ∧
      w.drawText.visit.finish.prelude = w.visit.prelude ∧
      w.drawText.visit.finish.content =
        w.visit.content ++ node.written w.scope.nextClass node.attributes w.visit.classes := by
    rw [hfinish]
    exact ⟨hwrites.node_eq.trans hstands.node_eq, hwrites.attributes_eq, hwrites.classes_eq,
      hwrites.prelude_eq, hwrites.content_eq⟩
  obtain ⟨hsameNode, hproperties, hclasses, hsamePrelude, hsameContent⟩ := hsame
  refine ⟨i, w, hstands, hwrites.scope_eq, hscope.symm, ?_, ?_, houter.symm, hinner.symm, ?_, ?_⟩
  · rw [← hnode, hsameNode]
  · rw [← hmiddle, Visit.sceneId, hsameNode, hproperties, hclasses]
  · rw [← hprelude, hsamePrelude]
  · rw [← hcontent, hsameContent]

namespace Rendered.Composed

variable {inside : Bool} {node : Node} {s u t : Scope} {i : Import} {w : Work} {v : Visit} {d : Rendered}

theorem addAll_eq (h : d.Composed ctx inside node s i w v u t) :
    t = s.addAll (ctx.entries inside node i ++
      (node.textStyles ++ [v.finish.middle, v.finish.outer, v.finish.inner]).map .style) := by
  rw [h.scope_eq, h.text_eq, h.stands.scope_eq, ← Scope.addAll_append, ← Scope.addAll_append,
    List.map_append]
  rfl

theorem grows_text (h : d.Composed ctx inside node s i w v u t) : w.scope.Grows u :=
  h.text_eq ▸ Scope.Grows.addAll w.scope _

theorem grows_wrappers (h : d.Composed ctx inside node s i w v u t) : u.Grows t :=
  h.scope_eq ▸ Scope.Grows.addAll u _

end Rendered.Composed

namespace Context.Enters

variable {inside : Bool} {node : Node} {s u t : Scope} {v : Visit} {d : Rendered}

theorem grows (hp : ctx.plugins = {}) (h : ctx.Enters inside node s v u d t) : s.Grows t := by
  obtain ⟨i, w, hd⟩ := h.exists_composed hp
  exact hd.addAll_eq ▸ Scope.Grows.addAll s _

end Context.Enters

end DesignCompiler

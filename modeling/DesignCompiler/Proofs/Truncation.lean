import DesignCompiler.Proofs.Classes
import DesignCompiler.Proofs.Segments
import DesignCompiler.Proofs.Serving

namespace DesignCompiler

/-- The `ellipsis` parameter is a flag, or the number of the run is in its list. -/
def Params.ListsRun (params : Params) (index : Nat) : Prop :=
  params.lookup "ellipsis" = some .flag ∨
    ∃ list, params.lookup "ellipsis" = some (.text list) ∧
      ∃ word ∈ Text.split "," list, Decimal.readWord? (Text.trim word) = some index

def Node.ListsAt (node : Node) (j style : Nat) : Prop :=
  ∃ text index key, node.pieces[j]? = some (.run text style index key) ∧ node.params.ListsRun index

theorem RunOptions.isTruncated_ofNode {node : Node} {index : Nat} :
    (ofNode node).isTruncated index ↔ node.params.ListsRun index := by
  have hellipsis : (ofNode node).ellipsis = ellipsisRuns node.params := rfl
  rw [isTruncated, hellipsis, Params.ListsRun, ellipsisRuns]
  rcases hlookup : node.params.lookup "ellipsis" with _ | _ | list | _ <;>
    simp only [List.contains_nil, List.contains_iff_mem, List.mem_filterMap, Option.some.injEq,
      ParamValue.text.injEq, reduceCtorEq, false_and, exists_false, or_false, false_or,
      exists_eq_left', Bool.false_eq_true]

namespace StyleMap

variable {style : StyleMap} {name : String}

def Truncates (style : StyleMap) : Prop :=
  style.get? "overflow" = some "hidden" ∧ style.get? "textOverflow" = some "ellipsis"

/-- A text is cut off on a condition; otherwise nothing is said of what does not fit. -/
structure TruncatesJust (p : Prop) (style : StyleMap) : Prop where
  truncates : p → style.Truncates
  silent : ¬p → style.get? "overflow" = none ∧ style.get? "textOverflow" = none

theorem TruncatesJust.iff {p : Prop} (h : style.TruncatesJust p) : style.Truncates ↔ p := by
  refine ⟨fun ht => ?_, h.truncates⟩
  by_contra hp
  rw [Truncates, (h.silent hp).1] at ht
  cases ht.1

theorem get?_set_of_ne {property : String} (h : name ≠ property) (value : StyleValue) :
    (style.set property value).get? name = style.get? name :=
  Table.lookup_put_of_ne h value style

theorem get?_set?_of_ne {property : String} (h : name ≠ property) (value : Option StyleValue) :
    (style.set? property value).get? name = style.get? name := by
  cases value with
  | none => rfl
  | some value => exact get?_set_of_ne h value

theorem get?_merge (style other : StyleMap) (name : String) :
    (style.merge other).get? name = (other.reverse.lookup name).or (style.get? name) :=
  Table.lookup_putAll other style name

end StyleMap

theorem TypeStyle.get?_applyTo {name : String}
    (h : name ∉ ["fontSize", "fontWeight", "fontFamily", "textAlign", "fontStyle", "lineHeight",
      "letterSpacing"])
    (s : TypeStyle) (style : StyleMap) : (s.applyTo style).get? name = style.get? name := by
  simp only [List.mem_cons, List.not_mem_nil, or_false, not_or] at h
  obtain ⟨hsize, hweight, hfamily, halign, hslant, hline, hspacing⟩ := h
  rw [applyTo, StyleMap.get?_set?_of_ne hspacing, StyleMap.get?_set?_of_ne hline,
    StyleMap.get?_set_of_ne hslant, StyleMap.get?_set?_of_ne halign, StyleMap.get?_set?_of_ne hfamily,
    StyleMap.get?_set?_of_ne hweight, StyleMap.get?_set?_of_ne hsize]

namespace RunOptions

variable (o : RunOptions)

theorem get?_runStyle {name : String} (hname : name = "overflow" ∨ name = "textOverflow") (style index : Nat)
    (earlier : StyleMap) :
    (o.runStyle style index earlier).get? name =
      if o.isTruncated index then
        StyleMap.get? name [("overflow", "hidden"), ("textOverflow", "ellipsis")]
      else earlier.get? name := by
  have hcolor : (earlier.merge (o.runColor style)).get? name = earlier.get? name := by
    rw [StyleMap.get?_merge, runColor]
    split <;> rcases hname with rfl | rfl <;> rfl
  have hflex : ∀ cut : StyleMap,
      (if style = o.lastStyle && o.flex then cut.set "flex" (.number 1) else cut).get? name = cut.get? name := by
    intro cut
    split
    · exact StyleMap.get?_set_of_ne (by rcases hname with rfl | rfl <;> decide) _
    · rfl
  refine (hflex _).trans ?_
  split
  · rw [StyleMap.get?_merge]
    rcases hname with rfl | rfl <;> rfl
  · split
    · rw [TypeStyle.get?_applyTo (by rcases hname with rfl | rfl <;> decide), hcolor]
    · exact hcolor

/-- What a run says of its own comes to what the runs before it left. -/
theorem truncatesJust_runStyle {p : Prop} {earlier : StyleMap} (h : earlier.TruncatesJust p)
    (style index : Nat) :
    (o.runStyle style index earlier).TruncatesJust (p ∨ o.isTruncated index) where
  truncates hp := by
    rw [StyleMap.Truncates, o.get?_runStyle (.inl rfl), o.get?_runStyle (.inr rfl)]
    split
    · exact ⟨rfl, rfl⟩
    · next hlisted => exact h.truncates (hp.resolve_right hlisted)
  silent hp := by
    rw [not_or] at hp
    rw [o.get?_runStyle (.inl rfl), o.get?_runStyle (.inr rfl), if_neg hp.2, if_neg hp.2]
    exact h.silent hp.1

def CutsOff (pieces : List Text.Piece) (style : Nat) : Prop :=
  ∃ text index key, .run text style index key ∈ pieces ∧ o.isTruncated index

def Left (pieces : List Text.Piece) (styles : RunStyles) : Prop :=
  ∀ style, ((styles.lookup style).getD []).TruncatesJust (o.CutsOff pieces style)

variable {o} {pieces : List Text.Piece} {styles : RunStyles}

theorem cutsOff_append_run {text key : String} {style index : Nat} :
    o.CutsOff (pieces ++ [.run text style index key]) style ↔
      o.CutsOff pieces style ∨ o.isTruncated index := by
  constructor
  · rintro ⟨text', index', key', hmem, hlisted⟩
    rcases List.mem_append.1 hmem with hmem | hmem
    · exact .inl ⟨text', index', key', hmem, hlisted⟩
    · cases List.mem_singleton.1 hmem
      exact .inr hlisted
  · rintro (⟨text', index', key', hmem, hlisted⟩ | hlisted)
    · exact ⟨text', index', key', List.mem_append_left _ hmem, hlisted⟩
    · exact ⟨text, index, key, List.mem_append_right _ (List.mem_singleton.2 rfl), hlisted⟩

theorem cutsOff_append_of_ne {piece : Text.Piece} {style : Nat}
    (h : ∀ text index key, piece ≠ .run text style index key) :
    o.CutsOff (pieces ++ [piece]) style ↔ o.CutsOff pieces style := by
  have hmem : ∀ text index key, .run text style index key ∈ pieces ++ [piece] ↔
      .run text style index key ∈ pieces := by
    intro text index key
    rw [List.mem_append, List.mem_singleton, or_iff_left (Ne.symm (h text index key))]
  simp only [CutsOff, hmem]

theorem Left.truncatesJust (h : o.Left pieces styles) (text key : String) (style index : Nat) :
    (o.pieceStyle styles (.run text style index key)).TruncatesJust
      (o.CutsOff (pieces ++ [.run text style index key]) style) := by
  rw [cutsOff_append_run]
  exact o.truncatesJust_runStyle (h style) style index

theorem Left.leave (h : o.Left pieces styles) (piece : Text.Piece) :
    o.Left (pieces ++ [piece]) (o.leave styles piece) := by
  intro style'
  cases piece with
  | run text style index key =>
      rw [RunOptions.leave, List.lookup_cons]
      by_cases hstyle : style' = style
      · subst hstyle
        rw [beq_self_eq_true]
        exact h.truncatesJust text key style' index
      · -- A run leaves the map of any other style as it was.
        rw [beq_eq_false_iff_ne.2 hstyle, cutsOff_append_of_ne (by simp [Ne.symm hstyle])]
        exact h style'
  | lineBreak key =>
      rw [cutsOff_append_of_ne (by simp)]
      exact h style'
  | blankLine key =>
      rw [cutsOff_append_of_ne (by simp)]
      exact h style'

theorem left_foldl (o : RunOptions) (pieces : List Text.Piece) :
    o.Left pieces (pieces.foldl o.leave []) := by
  induction pieces using List.reverseRecOn with
  | nil => exact fun style => ⟨fun ⟨_, _, _, hmem, _⟩ => absurd hmem List.not_mem_nil, fun _ => ⟨rfl, rfl⟩⟩
  | append_singleton pieces piece ih =>
      rw [List.foldl_append]
      exact ih.leave piece

theorem getElem?_pieceStyles {k : Nat} {piece : Text.Piece} (h : pieces[k]? = some piece) :
    (o.pieceStyles styles pieces)[k]? = some (o.pieceStyle ((pieces.take k).foldl o.leave styles) piece) := by
  induction pieces generalizing styles k with
  | nil => cases h
  | cons first rest ih =>
      cases k with
      | zero =>
          obtain rfl := Option.some.inj h
          rfl
      | succ k => exact ih h

end RunOptions

theorem Text.mem_take_succ_iff {α : Type} {l : List α} {a : α} {k : Nat} :
    a ∈ l.take (k + 1) ↔ ∃ j ≤ k, l[j]? = some a := by
  rw [List.mem_iff_getElem?]
  refine exists_congr fun j => ?_
  rw [List.getElem?_take, ← Nat.lt_succ_iff]
  split <;> simp [*]

theorem Rule.getElem?_numbered (number : Nat) (styles : List StyleMap) (k : Nat) :
    (Rule.numbered number styles)[k]? = styles[k]?.map (Rule.of? (number + k)) := by
  induction styles generalizing number k with
  | nil => rfl
  | cons style styles ih =>
      cases k with
      | zero => rfl
      | succ k =>
          rw [numbered, List.getElem?_cons_succ, List.getElem?_cons_succ, ih]
          congr 2
          omega

def Rule.styleOf (rule : Option Rule) : StyleMap := rule.elim [] Rule.style

theorem Rule.styleOf_of? (number : Nat) (style : StyleMap) : styleOf (Rule.of? number style) = style := by
  rw [Rule.of?]
  split
  · next hempty => exact (List.isEmpty_iff.1 hempty).symm
  · rfl

namespace Work

/-- The `k`-th piece of the text that is drawn is the span of a run. Its rule, which stands in the style
sheet, cuts it off just on a condition. -/
def DrawsRun (w : Work) (k : Nat) (text key : String) (p : Prop) : Prop :=
  ∃ rule, w.drawText.visit.content[w.visit.content.length + k]? = some (.span rule key text) ∧
    (∀ r ∈ rule, r ∈ w.drawText.scope.rules) ∧ (Rule.styleOf rule).TruncatesJust p

theorem DrawsRun.iff {w : Work} {k : Nat} {text key : String} {p q : Prop} (h : w.DrawsRun k text key p)
    (h' : w.DrawsRun k text key q) : p ↔ q := by
  obtain ⟨rule, hspan, -, hp⟩ := h
  obtain ⟨rule', hspan', -, hq⟩ := h'
  rw [hspan] at hspan'
  cases hspan'
  exact hp.iff.symm.trans hq.iff

theorem DrawsRun.of_iff {w : Work} {k : Nat} {text key : String} {p q : Prop} (h : w.DrawsRun k text key p)
    (hpq : p ↔ q) : w.DrawsRun k text key q :=
  propext hpq ▸ h

variable {w : Work}

theorem drawsRun (hkind : w.visit.node.kind = .text) (hinput : w.visit.node.params.contains "input" = false)
    {k : Nat} {text key : String} {style index : Nat}
    (hrun : w.visit.node.pieces[k]? = some (.run text style index key)) :
    w.DrawsRun k text key
      ((RunOptions.ofNode w.visit.node).CutsOff (w.visit.node.pieces.take (k + 1)) style) := by
  let o := RunOptions.ofNode w.visit.node
  have hstyles : w.visit.node.textStyles = o.pieceStyles [] w.visit.node.pieces := by
    rw [Node.textStyles, if_neg (not_not.2 hkind), if_neg (by simp [hinput])]
  have hwrites := w.writes_drawText
  rw [Node.written, if_neg (not_not.2 hkind), if_neg (by simp [hinput]), hstyles] at hwrites
  -- Each piece takes one class, so that the run has the class after those of the pieces before it.
  let map := o.pieceStyle ((w.visit.node.pieces.take k).foldl o.leave []) (.run text style index key)
  have hrule : (Rule.numbered w.scope.nextClass (o.pieceStyles [] w.visit.node.pieces))[k]? =
      some (Rule.of? (w.scope.nextClass + k) map) := by
    rw [Rule.getElem?_numbered, RunOptions.getElem?_pieceStyles hrun]
    rfl
  refine ⟨Rule.of? (w.scope.nextClass + k) map, ?_, fun r hr => ?_, ?_⟩
  · rw [hwrites.content_eq, List.getElem?_append_right (Nat.le_add_right ..), Nat.add_sub_cancel_left,
      List.getElem?_zipWith, hrule, hrun]
    rfl
  · have hentered : some r ∈ Rule.numbered w.scope.nextClass (o.pieceStyles [] w.visit.node.pieces) :=
      List.mem_of_getElem? (hrule.trans (congrArg some hr))
    rw [hwrites.scope_eq, Scope.rules_addStyles]
    exact List.mem_append_right _ (List.reduceOption_mem_iff.2 hentered)
  · rw [Rule.styleOf_of?, List.take_add_one, hrun]
    exact (o.left_foldl _).truncatesJust text key style index

/-- A run is cut off if a run of its style is listed that is not after it, and nothing is said of its
overflow otherwise. So the listed runs alone are cut off just when no listed run is followed by one of its
style that is not listed itself. -/
theorem truncates_iff_listed_before (hkind : w.visit.node.kind = .text)
    (hinput : w.visit.node.params.contains "input" = false) :
    (∀ k text style index key, w.visit.node.pieces[k]? = some (.run text style index key) →
      w.DrawsRun k text key (∃ j ≤ k, w.visit.node.ListsAt j style)) ∧
    ((∀ k text style index key, w.visit.node.pieces[k]? = some (.run text style index key) →
        w.DrawsRun k text key (w.visit.node.params.ListsRun index)) ↔
      ∀ j k text style index key, j ≤ k → w.visit.node.ListsAt j style →
        w.visit.node.pieces[k]? = some (.run text style index key) →
        w.visit.node.params.ListsRun index) := by
  have hdraws : ∀ k text style index key, w.visit.node.pieces[k]? = some (.run text style index key) →
      w.DrawsRun k text key (∃ j ≤ k, w.visit.node.ListsAt j style) := by
    intro k text style index key hrun
    refine (drawsRun hkind hinput hrun).of_iff ?_
    simp only [RunOptions.CutsOff, RunOptions.isTruncated_ofNode, Text.mem_take_succ_iff, Node.ListsAt]
    constructor
    · rintro ⟨text', index', key', ⟨j, hjk, hj⟩, hlisted⟩
      exact ⟨j, hjk, text', index', key', hj, hlisted⟩
    · rintro ⟨j, hjk, text', index', key', hj, hlisted⟩
      exact ⟨text', index', key', ⟨j, hjk, hj⟩, hlisted⟩
  refine ⟨hdraws, fun h j k text style index key hjk hj hrun => ?_, fun h k text style index key hrun => ?_⟩
  · exact ((hdraws k text style index key hrun).iff (h k text style index key hrun)).1 ⟨j, hjk, hj⟩
  · refine (hdraws k text style index key hrun).of_iff ⟨?_, fun hlisted => ?_⟩
    · rintro ⟨j, hjk, hj⟩
      exact h j k text style index key hjk hj hrun
    · exact ⟨k, Nat.le_refl k, text, index, key, hrun, hlisted⟩

def onText (name characters : String) (styles : List Nat) : Work where
  visit := .start
    { index := 0, attrs := { name, characters := some characters, styleOverrides := styles }
      kind := .text, constraints := {}, params := Params.parse {} name, parent := none } {}
  scope := { name := "Title", classPrefix := "figma-" }

theorem params_onText (characters : String) (styles : List Nat) :
    (onText "title??ellipsis=0" characters styles).visit.node.params = [("ellipsis", .text "0")] := by
  have hcut : Text.cut? "??".toList "title??ellipsis=0".toList = some ("title".toList, "ellipsis=0".toList) := by decide
  have hentries : Params.entries? (.of {}) "ellipsis=0".toList = some [("ellipsis".toList, some "0".toList)] :=
    Params.entries?_last (by decide) (by decide)
  have hkey : Text.splitChars ".".toList "ellipsis".toList = ["ellipsis".toList] :=
    Text.splitChars_of_not_isInfix (by decide) (by decide)
  change Params.parse {} "title??ellipsis=0" = _
  rw [Params.parse_of_cut? hcut, hentries]
  simp only [List.map_cons, List.map_nil, Params.Setting.ofEntry, hkey]
  rfl

theorem listsRun_onText {characters : String} {styles : List Nat} {index : Nat} :
    (onText "title??ellipsis=0" characters styles).visit.node.params.ListsRun index ↔ index = 0 := by
  have hsplit : Text.split "," "0" = ["0"] := by
    rw [Text.split, Text.splitChars_of_not_isInfix (by decide) (by decide)]
    rfl
  have hzero : Decimal.readWord? (Text.trim "0") = some 0 := by decide
  rw [Params.ListsRun, params_onText]
  simp [hsplit, hzero, eq_comm]

theorem truncates_first :
    (onText "title??ellipsis=0" "abcd" [0, 0, 3, 3]).DrawsRun 0 "ab" "2" True ∧
      (onText "title??ellipsis=0" "abcd" [0, 0, 3, 3]).DrawsRun 1 "cd" "end" False := by
  have hpieces : (onText "title??ellipsis=0" "abcd" [0, 0, 3, 3]).visit.node.pieces =
      [.run "ab" 0 0 "2", .run "cd" 3 1 "end"] := by decide
  have hdraws := (truncates_iff_listed_before (w := onText "title??ellipsis=0" "abcd" [0, 0, 3, 3]) rfl
    (by rw [params_onText]; rfl)).1
  simp only [Node.ListsAt, listsRun_onText, hpieces] at hdraws
  refine ⟨(hdraws 0 "ab" 0 0 "2" rfl).of_iff (iff_true_intro ⟨0, Nat.le_refl 0, "ab", 0, "2", rfl, rfl⟩),
    (hdraws 1 "cd" 3 1 "end" rfl).of_iff (iff_false_intro ?_)⟩
  rintro ⟨j, hj, text, index, key, hrun, rfl⟩
  obtain rfl | rfl := Nat.le_one_iff_eq_zero_or_eq_one.1 hj <;> cases hrun

/-- The second of two lines is cut off with the first, though only that is listed. -/
theorem not_forall_truncates_iff_listed :
    ¬∀ w : Work, w.visit.node.kind = .text → w.visit.node.params.contains "input" = false →
      ∀ k text style index key, w.visit.node.pieces[k]? = some (.run text style index key) →
        w.DrawsRun k text key (w.visit.node.params.ListsRun index) := by
  intro h
  let w := onText "title??ellipsis=0" "a\nb" []
  have hkind : w.visit.node.kind = .text := rfl
  have hinput : w.visit.node.params.contains "input" = false := by
    rw [params_onText]
    rfl
  have hpieces : w.visit.node.pieces = [.run "a" 0 0 "1", .lineBreak "br1", .run "b" 0 1 "end"] := by decide
  have hb : w.visit.node.pieces[2]? = some (.run "b" 0 1 "end") := by rw [hpieces]; rfl
  have hlisted := (drawsRun hkind hinput hb).iff (h w hkind hinput 2 "b" 0 1 "end" hb)
  have ha : (RunOptions.ofNode w.visit.node).CutsOff (w.visit.node.pieces.take 3) 0 :=
    ⟨"a", 0, "1", by rw [hpieces]; decide, RunOptions.isTruncated_ofNode.2 (listsRun_onText.2 rfl)⟩
  exact absurd (listsRun_onText.1 (hlisted.1 ha)) (by decide)

end Work

end DesignCompiler

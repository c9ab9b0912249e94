import DesignCompiler.Component.Rendered

namespace DesignCompiler

abbrev Block := Guard × String

def Block.opening (b : Block) : Fragment := .guard b.1 b.2

namespace Fragment

def next (opened : List Block) : Fragment → List Block
  | .guard g prop => (g, prop) :: opened
  | .guardEnd => opened.tail
  | _ => opened

def isWritten : Fragment → Bool
  | .span .. | .lineBreak .. | .blankLine .. | .input .. => true
  | _ => false

def isPlaced : Fragment → Bool
  | .component .. | .drawing .. | .picture .. | .slot .. => true
  | _ => false

/-- Shows something of the node itself; a slot shows a property instead. -/
def isShown : Fragment → Bool
  | .guard .. | .guardEnd | .slot .. => false
  | _ => true

theorem next_of_isWritten {f : Fragment} (h : f.isWritten) (opened : List Block) :
    f.next opened = opened := by
  cases f <;> first | rfl | cases h

theorem next_of_isPlaced {f : Fragment} (h : f.isPlaced) (opened : List Block) :
    f.next opened = opened := by
  cases f <;> first | rfl | cases h

theorem isWritten_eq_false_of_isPlaced {f : Fragment} (h : f.isPlaced) : f.isWritten = false := by
  cases f <;> first | rfl | cases h

theorem isShown_of_isWritten {f : Fragment} (h : f.isWritten) : f.isShown := by
  cases f <;> first | rfl | cases h

end Fragment

section Reading

variable {opened : List Block} {fs gs : List Fragment}

def openAfter (opened : List Block) (fs : List Fragment) : List Block := fs.foldl Fragment.next opened

def blocksAround (opened : List Block) : List Fragment → List (Fragment × List Block)
  | [] => []
  | f :: fs => (f, opened) :: blocksAround (f.next opened) fs

theorem openAfter_append (opened : List Block) (fs gs : List Fragment) :
    openAfter opened (fs ++ gs) = openAfter (openAfter opened fs) gs := List.foldl_append

theorem blocksAround_append (opened : List Block) (fs gs : List Fragment) :
    blocksAround opened (fs ++ gs) = blocksAround opened fs ++ blocksAround (openAfter opened fs) gs := by
  induction fs generalizing opened with
  | nil => rfl
  | cons f fs ih =>
      rw [List.cons_append, blocksAround, ih]
      rfl

theorem openAfter_opening (blocks opened : List Block) :
    openAfter opened (blocks.map Block.opening) = blocks.reverse ++ opened := by
  induction blocks generalizing opened with
  | nil => rfl
  | cons b blocks ih =>
      change openAfter (b :: opened) (blocks.map Block.opening) = _
      rw [ih, List.reverse_cons, List.append_assoc]
      rfl

theorem mem_of_mem_blocksAround {e : Fragment × List Block} (h : e ∈ blocksAround opened fs) :
    e.1 ∈ fs := by
  induction fs generalizing opened with
  | nil => cases h
  | cons f fs ih =>
      rcases List.mem_cons.1 h with rfl | h
      · exact List.mem_cons_self
      · exact List.mem_cons_of_mem f (ih h)

theorem suffix_of_mem_blocksAround_opening {blocks : List Block} {e : Fragment × List Block}
    (h : e ∈ blocksAround opened (blocks.map Block.opening)) : opened <:+ e.2 := by
  induction blocks generalizing opened with
  | nil => cases h
  | cons b blocks ih =>
      rcases List.mem_cons.1 h with rfl | h
      · exact List.suffix_rfl
      · exact (List.suffix_cons b opened).trans (ih h)

/-- The fragments close all the blocks that they open, and no others. -/
def Balanced (fs : List Fragment) : Prop :=
  ∀ opened, openAfter opened fs = opened ∧ ∀ e ∈ blocksAround opened fs, opened <:+ e.2

theorem Balanced.nil : Balanced [] := by
  intro opened
  refine ⟨rfl, ?_⟩
  intro e he
  cases he

theorem Balanced.append (h : Balanced fs) (h' : Balanced gs) : Balanced (fs ++ gs) := by
  intro opened
  refine ⟨?_, ?_⟩
  · rw [openAfter_append, (h opened).1, (h' opened).1]
  · intro e he
    rw [blocksAround_append, (h opened).1] at he
    rcases List.mem_append.1 he with he | he
    · exact (h opened).2 e he
    · exact (h' opened).2 e he

def Plain (fs : List Fragment) : Prop := ∀ f ∈ fs, ∀ opened, f.next opened = opened

theorem Plain.openAfter_eq (h : Plain fs) (opened : List Block) : openAfter opened fs = opened := by
  induction fs with
  | nil => rfl
  | cons f fs ih =>
      change openAfter (f.next opened) fs = opened
      rw [h f List.mem_cons_self]
      exact ih fun g hg => h g (List.mem_cons_of_mem f hg)

theorem Plain.blocksAround_eq (h : Plain fs) (opened : List Block) :
    blocksAround opened fs = fs.map fun f => (f, opened) := by
  induction fs with
  | nil => rfl
  | cons f fs ih =>
      rw [blocksAround, h f List.mem_cons_self, ih fun g hg => h g (List.mem_cons_of_mem f hg)]
      rfl

theorem Plain.balanced (h : Plain fs) : Balanced fs := by
  intro opened
  refine ⟨h.openAfter_eq opened, ?_⟩
  intro e he
  rw [h.blocksAround_eq] at he
  obtain ⟨f, -, rfl⟩ := List.mem_map.1 he
  exact List.suffix_rfl

/-- The ends of some blocks, with properties between them. -/
inductive Closes : Nat → List Fragment → Prop
  | nil : Closes 0 []
  | guardEnd {n : Nat} {fs : List Fragment} (h : Closes n fs) : Closes (n + 1) (fs ++ [.guardEnd])
  | slot {n : Nat} {fs : List Fragment} (h : Closes n fs) (prop : String) :
      Closes n (fs ++ [.slot prop])

theorem Closes.isShown_eq_false {n : Nat} (h : Closes n fs) {f : Fragment} (hf : f ∈ fs) :
    f.isShown = false := by
  induction h with
  | nil => cases hf
  | guardEnd _ ih | slot _ _ ih =>
      rcases List.mem_append.1 hf with hf | hf
      · exact ih hf
      · rw [List.mem_singleton.1 hf]
        rfl

theorem Closes.openAfter_eq {n : Nat} (h : Closes n fs) (opened : List Block) :
    openAfter opened fs = opened.drop n := by
  induction h with
  | nil => rfl
  | guardEnd _ ih =>
      rw [openAfter_append, ih]
      exact List.tail_drop
  | slot _ _ ih =>
      rw [openAfter_append, ih]
      rfl

theorem Closes.suffix_of_mem {n : Nat} (h : Closes n fs) {blocks : List Block}
    (hn : n ≤ blocks.length) {e : Fragment × List Block}
    (he : e ∈ blocksAround (blocks ++ opened) fs) : opened <:+ e.2 := by
  have hdrop : ∀ m ≤ blocks.length, opened <:+ (blocks ++ opened).drop m := by
    intro m hm
    rw [List.drop_append_of_le_length hm]
    exact List.suffix_append ..
  induction h with
  | nil => cases he
  | guardEnd h ih =>
      rw [blocksAround_append, h.openAfter_eq] at he
      rcases List.mem_append.1 he with he | he
      · exact ih (by omega) he
      · rw [List.mem_singleton.1 he]
        exact hdrop _ (by omega)
  | slot h prop ih =>
      rw [blocksAround_append, h.openAfter_eq] at he
      rcases List.mem_append.1 he with he | he
      · exact ih hn he
      · rw [List.mem_singleton.1 he]
        exact hdrop _ hn

end Reading

namespace Rendered

mutual

def fragments : Rendered → List Fragment
  | ⟨_, _, _, _, prelude, children, content⟩ => prelude ++ fragmentsOfAll children ++ content

def fragmentsOfAll : List Rendered → List Fragment
  | [] => []
  | r :: rest => fragments r ++ fragmentsOfAll rest

end

theorem fragments_eq (r : Rendered) :
    r.fragments = r.prelude ++ fragmentsOfAll r.children ++ r.content := by
  cases r
  rw [fragments]

theorem fragmentsOfAll_eq (rs : List Rendered) : fragmentsOfAll rs = rs.flatMap fragments := by
  induction rs with
  | nil => rw [fragmentsOfAll]; rfl
  | cons r rs ih => rw [fragmentsOfAll, ih]; rfl

theorem balanced_fragmentsOfAll {rs : List Rendered} (h : ∀ r ∈ rs, Balanced r.fragments) :
    Balanced (fragmentsOfAll rs) := by
  induction rs with
  | nil => exact .nil
  | cons r rs ih =>
      rw [fragmentsOfAll]
      exact (h r List.mem_cons_self).append (ih fun r' hr' => h r' (List.mem_cons_of_mem r hr'))

end Rendered

inductive Part where
  | fragment (f : Fragment)
  | child (r : Rendered)

namespace Part

def fragments : Part → List Fragment
  | .fragment f => [f]
  | .child r => r.fragments

def isWritten : Part → Bool
  | .fragment f => f.isWritten
  | .child _ => false

def isShown : Part → Bool
  | .fragment f => f.isShown
  | .child _ => true

def lines (stem : String) (depth : Nat) : Part → List Line
  | .fragment f => f.lines stem depth
  | .child r => r.lines stem depth

def LiesIn (p : Part) (opened : List Block) (b : Block) : Prop :=
  b ∈ opened ∧ ∀ e ∈ blocksAround opened p.fragments, b ∈ e.2

theorem LiesIn.of_balanced {p : Part} (h : Balanced p.fragments) {opened : List Block} {b : Block}
    (hb : b ∈ opened) : p.LiesIn opened b :=
  ⟨hb, fun e he => ((h opened).2 e he).subset hb⟩

end Part

def partsAround (opened : List Block) : List Part → List (Part × List Block)
  | [] => []
  | p :: ps => (p, opened) :: partsAround (openAfter opened p.fragments) ps

theorem partsAround_append (opened : List Block) (ps qs : List Part) :
    partsAround opened (ps ++ qs) =
      partsAround opened ps ++ partsAround (openAfter opened (ps.flatMap Part.fragments)) qs := by
  induction ps generalizing opened with
  | nil => rfl
  | cons p ps ih =>
      rw [List.cons_append, partsAround, ih, List.flatMap_cons, openAfter_append]
      rfl

theorem flatMap_fragment (fs : List Fragment) :
    (fs.map Part.fragment).flatMap Part.fragments = fs := by
  induction fs with
  | nil => rfl
  | cons f fs ih => rw [List.map_cons, List.flatMap_cons, ih, Part.fragments, List.singleton_append]

theorem partsAround_fragment (opened : List Block) (fs : List Fragment) :
    partsAround opened (fs.map Part.fragment) =
      (blocksAround opened fs).map fun e => (.fragment e.1, e.2) := by
  induction fs generalizing opened with
  | nil => rfl
  | cons f fs ih =>
      rw [List.map_cons, partsAround, ih]
      rfl

theorem flatMap_child (rs : List Rendered) :
    (rs.map Part.child).flatMap Part.fragments = Rendered.fragmentsOfAll rs := by
  induction rs with
  | nil => rw [Rendered.fragmentsOfAll]; rfl
  | cons r rs ih => rw [List.map_cons, List.flatMap_cons, ih, Rendered.fragmentsOfAll, Part.fragments]

theorem partsAround_child {opened : List Block} {rs : List Rendered}
    (h : ∀ r ∈ rs, Balanced r.fragments) :
    partsAround opened (rs.map Part.child) = rs.map fun r => (.child r, opened) := by
  induction rs with
  | nil => rfl
  | cons r rs ih =>
      rw [List.map_cons, partsAround, Part.fragments, (h r List.mem_cons_self opened).1,
        ih fun r' hr' => h r' (List.mem_cons_of_mem r hr')]
      rfl

namespace Rendered

def parts (r : Rendered) : List Part :=
  r.prelude.map .fragment ++ r.children.map .child ++ r.content.map .fragment

theorem partsAround_parts {r : Rendered} (h : ∀ c ∈ r.children, Balanced c.fragments)
    (opened : List Block) :
    partsAround opened r.parts =
      (blocksAround opened r.prelude).map (fun e => (.fragment e.1, e.2)) ++
        r.children.map (fun c => (.child c, openAfter opened r.prelude)) ++
        (blocksAround (openAfter opened r.prelude) r.content).map fun e => (.fragment e.1, e.2) := by
  rw [parts, partsAround_append, partsAround_append, List.flatMap_append, openAfter_append,
    flatMap_fragment, flatMap_child, (balanced_fragmentsOfAll h _).1, partsAround_fragment,
    partsAround_fragment, partsAround_child h]

theorem linesOfAll_eq (stem : String) (depth : Nat) (rs : List Rendered) :
    linesOfAll stem depth rs = (rs.map Part.child).flatMap (Part.lines stem depth) := by
  induction rs with
  | nil => rw [linesOfAll]; rfl
  | cons r rs ih => rw [linesOfAll, ih]; rfl

theorem lines_eq (stem : String) (depth : Nat) (r : Rendered) :
    r.lines stem depth =
      wrap? stem depth r.outer fun depth =>
        wrap depth ("<div" ++ r.middle.text stem ++ ">") <|
          wrap? stem (depth + 1) r.inner fun depth => r.parts.flatMap (Part.lines stem depth) := by
  have hfragments : ∀ depth (fs : List Fragment),
      (fs.map Part.fragment).flatMap (Part.lines stem depth) = fs.flatMap (Fragment.lines stem depth) := by
    intro depth fs
    rw [List.flatMap_map]
    rfl
  cases r
  simp only [lines, parts, List.flatMap_append, hfragments, linesOfAll_eq]

/-- All that shows the subtree of a node lies in all of some blocks. -/
def IsGuarded (r : Rendered) (blocks : List Block) : Prop :=
  ∀ e ∈ partsAround [] r.parts, e.1.isShown → ∀ b ∈ blocks, e.1.LiesIn e.2 b

end Rendered

/-- The fragments of a node before and after its children: blocks are opened before them, and all
blocks are closed between what the node places and what it writes. -/
structure Framed (blocks : List Block) (written prelude content : List Fragment) : Prop where
  prelude_eq : prelude = blocks.map Block.opening
  content_eq : ∃ placed ends, content = placed ++ ends ++ written ∧ (∀ f ∈ placed, f.isPlaced) ∧
    Closes blocks.length ends
  isWritten : ∀ f ∈ written, f.isWritten

namespace Framed

variable {blocks : List Block} {written prelude content : List Fragment}

theorem placed (h : ∀ f ∈ content, f.isPlaced) : Framed [] [] [] content :=
  ⟨rfl, ⟨content, [], by simp, h, .nil⟩, by simp⟩

theorem guard (h : Framed blocks [] prelude content) (b : Block) :
    Framed (blocks ++ [b]) [] (prelude ++ [b.opening]) (content ++ [.guardEnd]) := by
  obtain ⟨placed, ends, hcontent, hplaced, hends⟩ := h.content_eq
  refine ⟨?_, ⟨placed, ends ++ [.guardEnd], ?_, hplaced, ?_⟩, h.isWritten⟩
  · rw [h.prelude_eq, List.map_append]
    rfl
  · rw [hcontent, List.append_nil, List.append_nil, List.append_assoc]
  · rw [List.length_append]
    exact hends.guardEnd

theorem slot (h : Framed blocks [] prelude content) (prop : String) :
    Framed blocks [] prelude (content ++ [.slot prop]) := by
  obtain ⟨placed, ends, hcontent, hplaced, hends⟩ := h.content_eq
  refine ⟨h.prelude_eq, ⟨placed, ends ++ [.slot prop], ?_, hplaced, hends.slot prop⟩, h.isWritten⟩
  rw [hcontent, List.append_nil, List.append_nil, List.append_assoc]

theorem write (h : Framed blocks written prelude content) {f : Fragment} (hf : f.isWritten) :
    Framed blocks (written ++ [f]) prelude (content ++ [f]) := by
  obtain ⟨placed, ends, hcontent, hplaced, hends⟩ := h.content_eq
  refine ⟨h.prelude_eq, ⟨placed, ends, ?_, hplaced, hends⟩, ?_⟩
  · rw [hcontent, List.append_assoc]
  · intro g hg
    rcases List.mem_append.1 hg with hg | hg
    · exact h.isWritten g hg
    · rw [List.mem_singleton.1 hg]
      exact hf

theorem plain_of_placed {fs : List Fragment} (h : ∀ f ∈ fs, f.isPlaced) : Plain fs :=
  fun f hf => Fragment.next_of_isPlaced (h f hf)

theorem plain (h : Framed blocks written prelude content) : Plain written :=
  fun f hf => Fragment.next_of_isWritten (h.isWritten f hf)

end Framed

namespace Rendered

variable {r : Rendered} {blocks : List Block} {written : List Fragment}

theorem balanced_of_framed (h : Framed blocks written r.prelude r.content)
    (hc : ∀ c ∈ r.children, Balanced c.fragments) : Balanced r.fragments := by
  obtain ⟨placed, ends, hcontent, hplaced, hends⟩ := h.content_eq
  have hinner : Balanced (fragmentsOfAll r.children ++ placed) :=
    (balanced_fragmentsOfAll hc).append (Framed.plain_of_placed hplaced).balanced
  have hr : r.fragments = blocks.map Block.opening ++
      ((fragmentsOfAll r.children ++ placed) ++ (ends ++ written)) := by
    rw [fragments_eq, h.prelude_eq, hcontent]
    simp only [List.append_assoc]
  intro opened
  have hopen := openAfter_opening blocks opened
  have hdrop : (blocks.reverse ++ opened).drop blocks.length = opened :=
    List.drop_left' List.length_reverse
  rw [hr]
  refine ⟨?_, ?_⟩
  · rw [openAfter_append, hopen, openAfter_append, (hinner _).1, openAfter_append,
      hends.openAfter_eq, hdrop, h.plain.openAfter_eq]
  · intro e he
    simp only [blocksAround_append _ (blocks.map Block.opening), hopen,
      blocksAround_append _ (fragmentsOfAll r.children ++ placed), (hinner _).1,
      blocksAround_append _ ends, hends.openAfter_eq, hdrop, List.mem_append] at he
    rcases he with he | he | he | he
    · exact suffix_of_mem_blocksAround_opening he
    · exact (List.suffix_append ..).trans ((hinner _).2 e he)
    · exact hends.suffix_of_mem (Nat.le_of_eq List.length_reverse.symm) he
    · exact (h.plain.balanced opened).2 e he

theorem partsAround_of_framed (h : Framed blocks written r.prelude r.content)
    (hc : ∀ c ∈ r.children, Balanced c.fragments) :
    ∃ placed ends : List Fragment, (∀ f ∈ placed, f.isPlaced) ∧ Closes blocks.length ends ∧
      partsAround [] r.parts =
        (blocksAround [] r.prelude).map (fun e => (.fragment e.1, e.2)) ++
          (r.children.map (fun c => (.child c, blocks.reverse)) ++
            (placed.map (fun f => (.fragment f, blocks.reverse)) ++
              ((blocksAround blocks.reverse ends).map (fun e => (.fragment e.1, e.2)) ++
                written.map (fun f => (.fragment f, []))))) := by
  obtain ⟨placed, ends, hcontent, hplaced, hends⟩ := h.content_eq
  have hopen : openAfter [] r.prelude = blocks.reverse := by
    rw [h.prelude_eq, openAfter_opening, List.append_nil]
  have hclose : openAfter blocks.reverse ends = [] := by
    rw [hends.openAfter_eq, ← List.length_reverse, List.drop_length]
  have hplain := Framed.plain_of_placed hplaced
  refine ⟨placed, ends, hplaced, hends, ?_⟩
  rw [partsAround_parts hc, hopen, hcontent, List.append_assoc placed, blocksAround_append,
    hplain.openAfter_eq, hplain.blocksAround_eq, blocksAround_append, hclose, h.plain.blocksAround_eq]
  simp only [List.map_append, List.map_map, List.append_assoc]
  rfl

/-- What is written stands in no block, and all else that is shown in all blocks of the frame. -/
theorem around_of_framed (h : Framed blocks written r.prelude r.content)
    (hc : ∀ c ∈ r.children, Balanced c.fragments) {e : Part × List Block}
    (he : e ∈ partsAround [] r.parts) (hs : e.1.isShown) :
    (∃ f ∈ written, e = (.fragment f, [])) ∨
      e.1.isWritten = false ∧ ∀ b ∈ blocks, e.1.LiesIn e.2 b := by
  obtain ⟨placed, ends, hplaced, hends, hparts⟩ := partsAround_of_framed h hc
  rw [hparts] at he
  simp only [List.mem_append, List.mem_map] at he
  rcases he with ⟨f, hf, rfl⟩ | ⟨c, hcr, rfl⟩ | ⟨f, hf, rfl⟩ | ⟨f, hf, rfl⟩ | ⟨f, hf, rfl⟩
  · have hprelude := mem_of_mem_blocksAround hf
    rw [h.prelude_eq] at hprelude
    obtain ⟨b, -, hb⟩ := List.mem_map.1 hprelude
    rw [Part.isShown, ← hb] at hs
    cases hs
  · refine .inr ⟨rfl, ?_⟩
    intro b hb
    exact Part.LiesIn.of_balanced (p := .child c) (hc c hcr) (List.mem_reverse.2 hb)
  · have hbalanced : Balanced [f] :=
      (Framed.plain_of_placed fun g hg => List.mem_singleton.1 hg ▸ hplaced f hf).balanced
    refine .inr ⟨Fragment.isWritten_eq_false_of_isPlaced (hplaced f hf), ?_⟩
    intro b hb
    exact Part.LiesIn.of_balanced (p := .fragment f) hbalanced (List.mem_reverse.2 hb)
  · rw [Part.isShown, hends.isShown_eq_false (mem_of_mem_blocksAround hf)] at hs
    cases hs
  · exact .inl ⟨f, hf, rfl⟩

theorem mem_partsAround_of_framed (h : Framed blocks written r.prelude r.content)
    (hc : ∀ c ∈ r.children, Balanced c.fragments) {f : Fragment} (hf : f ∈ written) :
    (.fragment f, []) ∈ partsAround [] r.parts := by
  obtain ⟨placed, ends, -, -, hparts⟩ := partsAround_of_framed h hc
  rw [hparts]
  simp only [List.mem_append]
  exact .inr (.inr (.inr (.inr (List.mem_map_of_mem hf))))

/-- A frame guards all that is in it just when nothing is written after it, or no block is opened. -/
theorem isGuarded_of_framed (h : Framed blocks written r.prelude r.content)
    (hc : ∀ c ∈ r.children, Balanced c.fragments) {own : List Block} (hown : own ⊆ blocks) :
    r.IsGuarded own ↔ own = [] ∨ written = [] := by
  constructor
  · intro hr
    rcases own with _ | ⟨b, own⟩
    · exact .inl rfl
    · rcases written with _ | ⟨f, written⟩
      · exact .inr rfl
      · have hf := mem_partsAround_of_framed h hc List.mem_cons_self
        have hs := Fragment.isShown_of_isWritten (h.isWritten f List.mem_cons_self)
        cases (hr _ hf hs b List.mem_cons_self).1
  · intro hr e he hs b hb
    rcases around_of_framed h hc he hs with ⟨f, hf, -⟩ | ⟨-, ha⟩
    · rcases hr with rfl | rfl
      · cases hb
      · cases hf
    · exact ha b (hown hb)

end Rendered

end DesignCompiler

import Mathlib.Data.List.Perm.Basic
import DesignCompiler.Proofs.Blocks
import DesignCompiler.Proofs.Visits

namespace DesignCompiler

inductive Wrapper
  | outer (r : Rule)
  | middle (h : Head)
  | inner (r : Rule)

def Wrapper.text (stem : String) : Wrapper → String
  | .outer r | .inner r => "<div className='" ++ r.className stem ++ "'>"
  | .middle h => "<div" ++ h.text stem ++ ">"

inductive Tag
  | opening (node : Nat) (w : Wrapper)
  | fragment (node : Nat) (f : Fragment)
  | closing (node : Nat) (w : Wrapper)

namespace Tag

def opened? : Tag → Option Nat
  | .opening node (.middle _) => some node
  | _ => none

def closed? : Tag → Option Nat
  | .closing node (.middle _) => some node
  | _ => none

def around (node : Nat) (w : Wrapper) (body : List Tag) : List Tag :=
  .opening node w :: (body ++ [.closing node w])

def around? (node : Nat) (w : Option Wrapper) (body : List Tag) : List Tag :=
  match w with
  | some w => around node w body
  | none => body

def next (depth : Nat) : Tag → Nat
  | .opening .. => depth + 1
  | .fragment .. => depth
  | .closing .. => depth - 1

def depthAfter (depth : Nat) (tags : List Tag) : Nat := tags.foldl next depth

def line (stem : String) (depth : Nat) : Tag → List Line
  | .opening _ w => Line.ofText depth (w.text stem)
  | .fragment _ f => f.lines stem depth
  | .closing .. => Line.ofText (depth - 1) "</div>"

def lines (stem : String) (depth : Nat) : List Tag → List Line
  | [] => []
  | t :: rest => t.line stem depth ++ lines stem (t.next depth) rest

def print (stem : String) (tags : List Tag) : String := String.join ((lines stem 0 tags).map Line.print)

theorem lines_append (stem : String) (depth : Nat) (ts us : List Tag) :
    lines stem depth (ts ++ us) = lines stem depth ts ++ lines stem (depthAfter depth ts) us := by
  induction ts generalizing depth with
  | nil => rfl
  | cons t ts ih =>
      rw [List.cons_append, lines, ih, lines, List.append_assoc]
      rfl

theorem depthAfter_append (depth : Nat) (ts us : List Tag) :
    depthAfter depth (ts ++ us) = depthAfter (depthAfter depth ts) us := List.foldl_append

/-- The tags close all that they open, and have these lines at each depth. -/
def Prints (stem : String) (tags : List Tag) (body : Nat → List Line) : Prop :=
  ∀ depth, depthAfter depth tags = depth ∧ lines stem depth tags = body depth

namespace Prints

variable {stem : String} {ts us : List Tag} {body body' : Nat → List Line}

theorem nil : Prints stem [] fun _ => [] := fun _ => ⟨rfl, rfl⟩

theorem append (h : Prints stem ts body) (h' : Prints stem us body') :
    Prints stem (ts ++ us) fun depth => body depth ++ body' depth := by
  intro depth
  obtain ⟨hdepth, hlines⟩ := h depth
  obtain ⟨hdepth', hlines'⟩ := h' depth
  refine ⟨?_, ?_⟩
  · rw [depthAfter_append, hdepth, hdepth']
  · rw [lines_append, hdepth, hlines, hlines']

theorem flatMap {α : Type} {l : List α} {f : α → List Tag} {g : Nat → α → List Line}
    (h : ∀ a ∈ l, Prints stem (f a) fun depth => g depth a) :
    Prints stem (l.flatMap f) fun depth => l.flatMap (g depth) := by
  induction l with
  | nil => exact nil
  | cons a l ih =>
      exact (h a List.mem_cons_self).append (ih fun b hb => h b (List.mem_cons_of_mem a hb))

theorem fragments (node : Nat) (fs : List Fragment) :
    Prints stem (fs.map (.fragment node)) fun depth => fs.flatMap (Fragment.lines stem depth) := by
  rw [List.map_eq_flatMap]
  refine flatMap fun f _ depth => ⟨rfl, ?_⟩
  rw [lines, lines, List.append_nil]
  rfl

theorem around (node : Nat) (w : Wrapper) (h : Prints stem ts body) :
    Prints stem (Tag.around node w ts) fun depth => wrap depth (w.text stem) (body (depth + 1)) := by
  intro depth
  obtain ⟨hdepth, hlines⟩ := h (depth + 1)
  refine ⟨?_, ?_⟩
  · change depthAfter (depth + 1) (ts ++ [.closing node w]) = depth
    rw [depthAfter_append, hdepth]
    rfl
  · change Line.ofText depth (w.text stem) ++ lines stem (depth + 1) (ts ++ [.closing node w]) = _
    dsimp only
    rw [lines_append, hdepth, hlines, lines, lines, List.append_nil, wrap, List.append_assoc]
    rfl

theorem around? (node : Nat) {k : Rule → Wrapper}
    (hk : ∀ r, (k r).text stem = "<div className='" ++ r.className stem ++ "'>") (rule : Option Rule)
    (h : Prints stem ts body) :
    Prints stem (Tag.around? node (rule.map k) ts) fun depth => wrap? stem depth rule body := by
  cases rule with
  | none => exact h
  | some r =>
      have hr := h.around node (k r)
      rw [hk r] at hr
      exact hr

end Prints

end Tag

namespace Rendered

mutual

def tags : Rendered → List Tag
  | ⟨node, outer, middle, inner, prelude, children, content⟩ =>
    Tag.around? node (outer.map .outer) <|
      Tag.around node (.middle middle) <|
        Tag.around? node (inner.map .inner) <|
          prelude.map (.fragment node) ++ tagsOfAll children ++ content.map (.fragment node)

def tagsOfAll : List Rendered → List Tag
  | [] => []
  | r :: rest => tags r ++ tagsOfAll rest

end

theorem tagsOfAll_eq (rs : List Rendered) : tagsOfAll rs = rs.flatMap tags := by
  induction rs with
  | nil => rw [tagsOfAll]; rfl
  | cons r rs ih => rw [tagsOfAll, ih]; rfl

theorem tags_eq (r : Rendered) :
    r.tags = Tag.around? r.node (r.outer.map .outer) (Tag.around r.node (.middle r.middle)
      (Tag.around? r.node (r.inner.map .inner) (r.prelude.map (.fragment r.node)
        ++ r.children.flatMap tags ++ r.content.map (.fragment r.node)))) := by
  cases r
  rw [tags, tagsOfAll_eq]

theorem prints_tags (stem : String) (r : Rendered) :
    Tag.Prints stem r.tags fun depth => r.lines stem depth := by
  induction r using induction_children with
  | step r ih =>
      have hparts : ∀ depth, r.parts.flatMap (Part.lines stem depth) =
          r.prelude.flatMap (Fragment.lines stem depth) ++ r.children.flatMap (lines stem depth)
            ++ r.content.flatMap (Fragment.lines stem depth) := by
        intro depth
        simp only [parts, List.flatMap_append, List.flatMap_map]
        rfl
      -- From the inside to the outside, as the wrappers stand around the parts.
      have hinside := ((Tag.Prints.fragments r.node r.prelude).append
        (Tag.Prints.flatMap ih)).append (Tag.Prints.fragments r.node r.content)
      simp only [← hparts] at hinside
      have hinner := hinside.around? r.node (k := .inner) (fun _ => rfl) r.inner
      have hmiddle := hinner.around r.node (.middle r.middle)
      have houter := hmiddle.around? r.node (k := .outer) (fun _ => rfl) r.outer
      intro depth
      dsimp only
      rw [tags_eq, lines_eq]
      exact houter depth

theorem print_eq (stem : String) (r : Rendered) : r.print stem = Tag.print stem r.tags := by
  rw [print, Tag.print, (prints_tags stem r 0).2]

def wrappers (r : Rendered) : List Wrapper :=
  (r.outer.map Wrapper.outer).toList ++ Wrapper.middle r.middle :: (r.inner.map Wrapper.inner).toList

def head (r : Rendered) : List Tag :=
  r.wrappers.map (Tag.opening r.node) ++ r.prelude.map (Tag.fragment r.node)

def foot (r : Rendered) : List Tag :=
  r.content.map (Tag.fragment r.node) ++ r.wrappers.reverse.map (Tag.closing r.node)

theorem tags_eq_head_foot (r : Rendered) : r.tags = r.head ++ r.children.flatMap tags ++ r.foot := by
  rw [tags_eq, head, foot, wrappers]
  cases r.outer <;> cases r.inner <;> simp [Tag.around?, Tag.around]

/-- A node opens its middle wrapper before its children and closes it after them. -/
theorem middle_head_foot (r : Rendered) :
    r.head.filterMap Tag.opened? = [r.node] ∧ r.head.filterMap Tag.closed? = [] ∧
      r.foot.filterMap Tag.opened? = [] ∧ r.foot.filterMap Tag.closed? = [r.node] := by
  have hfragments : ∀ fs : List Fragment, (fs.map (Tag.fragment r.node)).filterMap Tag.opened? = [] ∧
      (fs.map (Tag.fragment r.node)).filterMap Tag.closed? = [] := by
    intro fs
    simp [List.filterMap_map, Tag.opened?, Tag.closed?]
  have hwrappers : (r.wrappers.map (Tag.opening r.node)).filterMap Tag.opened? = [r.node] ∧
      (r.wrappers.map (Tag.opening r.node)).filterMap Tag.closed? = [] ∧
      (r.wrappers.reverse.map (Tag.closing r.node)).filterMap Tag.opened? = [] ∧
      (r.wrappers.reverse.map (Tag.closing r.node)).filterMap Tag.closed? = [r.node] := by
    rw [wrappers]
    cases r.outer <;> cases r.inner <;> exact ⟨rfl, rfl, rfl, rfl⟩
  obtain ⟨hopened, hnone, hnone', hclosed⟩ := hwrappers
  simp only [head, foot, List.filterMap_append, hfragments, hopened, hnone, hnone', hclosed]
  exact ⟨rfl, rfl, rfl, rfl⟩

theorem eq_middle_of_mem_wrappers {r : Rendered} {h : Head} (hw : .middle h ∈ r.wrappers) : h = r.middle := by
  rw [wrappers] at hw
  cases r.outer <;> cases r.inner <;> simpa using hw

theorem mem_head_foot_iff {r : Rendered} {tag : Tag} :
    tag ∈ r.head ++ r.foot ↔ (∃ w ∈ r.wrappers, tag = .opening r.node w) ∨
      (∃ f ∈ r.prelude ++ r.content, tag = .fragment r.node f) ∨ ∃ w ∈ r.wrappers, tag = .closing r.node w := by
  simp only [head, foot, List.mem_append, List.mem_map, List.mem_reverse]
  constructor
  · rintro ((⟨w, hw, rfl⟩ | ⟨f, hf, rfl⟩) | ⟨f, hf, rfl⟩ | ⟨w, hw, rfl⟩)
    · exact .inl ⟨w, hw, rfl⟩
    · exact .inr (.inl ⟨f, .inl hf, rfl⟩)
    · exact .inr (.inl ⟨f, .inr hf, rfl⟩)
    · exact .inr (.inr ⟨w, hw, rfl⟩)
  · rintro (⟨w, hw, rfl⟩ | ⟨f, hf | hf, rfl⟩ | ⟨w, hw, rfl⟩)
    · exact .inl (.inl ⟨w, hw, rfl⟩)
    · exact .inl (.inr ⟨f, hf, rfl⟩)
    · exact .inr (.inl ⟨f, hf, rfl⟩)
    · exact .inr (.inr ⟨w, hw, rfl⟩)

theorem perm_tags (r : Rendered) : r.tags.Perm (r.subtrees.flatMap fun d => d.head ++ d.foot) := by
  induction r using induction_children with
  | step r ih =>
      have hchildren : (r.children.flatMap tags).Perm
          ((r.children.flatMap subtrees).flatMap fun d => d.head ++ d.foot) := by
        rw [List.flatMap_assoc]
        exact List.Perm.flatMap_left _ ih
      rw [tags_eq_head_foot, subtrees_eq, List.flatMap_cons, List.append_assoc, List.append_assoc]
      exact (List.perm_append_comm.trans (hchildren.append_left r.foot)).append_left r.head

theorem mem_tags_iff {r : Rendered} {tag : Tag} :
    tag ∈ r.tags ↔ ∃ d ∈ r.subtrees, tag ∈ d.head ++ d.foot := by
  rw [r.perm_tags.mem_iff, List.mem_flatMap]

theorem opened_tags (r : Rendered) : r.tags.filterMap Tag.opened? = r.nodes := by
  induction r using induction_children with
  | step r ih =>
      obtain ⟨hhead, -, hfoot, -⟩ := middle_head_foot r
      have hchildren : (r.children.flatMap tags).filterMap Tag.opened? = r.children.flatMap nodes := by
        rw [List.filterMap_flatMap]
        exact List.flatMap_congr ih
      rw [tags_eq_head_foot, List.filterMap_append, List.filterMap_append, hhead, hfoot, hchildren,
        nodes_eq, List.append_nil]
      rfl

theorem perm_closed_tags (r : Rendered) : (r.tags.filterMap Tag.closed?).Perm r.nodes := by
  induction r using induction_children with
  | step r ih =>
      obtain ⟨-, hhead, -, hfoot⟩ := middle_head_foot r
      have hchildren : ((r.children.flatMap tags).filterMap Tag.closed?).Perm
          (r.children.flatMap nodes) := by
        rw [List.filterMap_flatMap]
        exact List.Perm.flatMap_left _ ih
      rw [tags_eq_head_foot, List.filterMap_append, List.filterMap_append, hhead, hfoot, List.nil_append,
        nodes_eq]
      exact (hchildren.append_right [r.node]).trans List.perm_append_comm

theorem tags_infix_of_mem_subtrees {r d : Rendered} (h : d ∈ r.subtrees) : d.tags <:+: r.tags := by
  induction mem_subtrees_iff.1 h with
  | refl => exact List.infix_rfl
  | @tail a d hra had ih =>
      have hchild : d.tags <:+: a.tags := by
        rw [tags_eq_head_foot a]
        exact (List.infix_of_mem_flatten (List.mem_map_of_mem had)).trans (List.infix_append ..)
      exact hchild.trans (ih (mem_subtrees_iff.2 hra))

end Rendered

end DesignCompiler

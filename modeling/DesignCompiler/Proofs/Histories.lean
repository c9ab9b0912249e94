import Mathlib.Algebra.GroupWithZero.Nat
import Mathlib.Order.Nat
import DesignCompiler.Component.Rendered
import DesignCompiler.Proofs.Tables

namespace DesignCompiler

/-- The rule of a style that has this class. An empty style has none. -/
def Rule.of? (number : Nat) (style : StyleMap) : Option Rule :=
  if style.isEmpty then none else some ⟨number, style⟩

def ExtraRule.number? : ExtraRule → Option Nat
  | .allotted number .. => some number
  | .written _ => none

namespace Scope

inductive Entry
  | style (style : StyleMap)
  | allotted (selector : String) (declarations : List String)
  | bare
  | written (text : String)
  | property (name type : String)
  | component (i : Import)

def Entry.classes : Entry → Nat
  | .style _ | .allotted .. | .bare => 1
  | .written _ | .property .. | .component _ => 0

def Entry.property? : Entry → Option (String × String)
  | .property name type => some (name, type)
  | _ => none

def add (s : Scope) : Entry → Scope
  | .style style => (s.addStyle style).2
  | .allotted selector declarations =>
    s.allot.2.addExtra (.allotted s.nextClass selector declarations)
  | .bare => s.allot.2
  | .written text => s.addExtra (.written text)
  | .property name type => s.declare name type
  | .component i => s.addImport i

def addAll (s : Scope) (entries : List Entry) : Scope := entries.foldl add s

variable {s t u : Scope}

theorem addAll_append (s : Scope) (es fs : List Entry) : s.addAll (es ++ fs) = (s.addAll es).addAll fs :=
  List.foldl_append

theorem addStyle_eq (s : Scope) (style : StyleMap) :
    s.addStyle style = (Rule.of? s.nextClass style, s.add (.style style)) := by
  rw [add, addStyle, Rule.of?]
  dsimp only [allot]
  split <;> rfl

theorem rules_addStyle (s : Scope) (style : StyleMap) :
    (s.addStyle style).2.rules = s.rules ++ (Rule.of? s.nextClass style).toList := by
  rw [addStyle, Rule.of?]
  dsimp only [allot]
  split
  · exact (List.append_nil _).symm
  · rfl

theorem nextClass_addStyle (s : Scope) (style : StyleMap) :
    (s.addStyle style).2.nextClass = s.nextClass + 1 := by
  rw [addStyle]
  dsimp only [allot]
  split <;> rfl

theorem addStyle_frame (s : Scope) (style : StyleMap) :
    (s.addStyle style).2.classPrefix = s.classPrefix ∧ (s.addStyle style).2.extra = s.extra ∧
      (s.addStyle style).2.props = s.props := by
  rw [addStyle]
  dsimp only [allot]
  split <;> exact ⟨rfl, rfl, rfl⟩

theorem nextClass_addAll (s : Scope) (entries : List Entry) :
    (s.addAll entries).nextClass = s.nextClass + (entries.map Entry.classes).sum := by
  induction entries generalizing s with
  | nil => rfl
  | cons e entries ih =>
      have hstep : (s.add e).nextClass = s.nextClass + e.classes := by
        cases e with
        | style style => exact s.nextClass_addStyle style
        | _ => rfl
      rw [List.map_cons, List.sum_cons, ← Nat.add_assoc, ← hstep]
      exact ih (s.add e)

theorem props_addAll (s : Scope) (entries : List Entry) :
    (s.addAll entries).props = Table.putAll (entries.filterMap Entry.property?) s.props := by
  induction entries generalizing s with
  | nil => rfl
  | cons e entries ih =>
      refine (ih (s.add e)).trans ?_
      cases e with
      | style style => exact congrArg _ (s.addStyle_frame style).2.2
      | _ => rfl

structure Grows (s t : Scope) : Prop where
  prefix_eq : t.classPrefix = s.classPrefix
  nextClass_le : s.nextClass ≤ t.nextClass
  rules : s.rules <+: t.rules
  props : s.props.keys ⊆ t.props.keys

namespace Grows

theorem refl (s : Scope) : s.Grows s := ⟨rfl, Nat.le_refl _, List.prefix_rfl, List.Subset.refl _⟩

theorem trans (h : s.Grows t) (h' : t.Grows u) : s.Grows u where
  prefix_eq := h'.prefix_eq.trans h.prefix_eq
  nextClass_le := h.nextClass_le.trans h'.nextClass_le
  rules := h.rules.trans h'.rules
  props := List.Subset.trans h.props h'.props

theorem add (s : Scope) (e : Entry) : s.Grows (s.add e) := by
  cases e with
  | style style =>
      obtain ⟨hstem, -, hprops⟩ := s.addStyle_frame style
      refine ⟨hstem, ?_, ?_, ?_⟩
      · exact (Nat.le_succ _).trans (s.nextClass_addStyle style).ge
      · change s.rules <+: (s.addStyle style).2.rules
        rw [rules_addStyle]
        exact List.prefix_append ..
      · exact fun name hname => hprops ▸ hname
  | property name type =>
      refine ⟨rfl, Nat.le_refl _, List.prefix_rfl, ?_⟩
      intro key hkey
      change key ∈ (Table.put name type s.props).keys
      rw [Table.keys_put]
      split
      · exact hkey
      · exact List.mem_append_left _ hkey
  | allotted selector declarations => exact ⟨rfl, Nat.le_succ _, List.prefix_rfl, List.Subset.refl _⟩
  | bare => exact ⟨rfl, Nat.le_succ _, List.prefix_rfl, List.Subset.refl _⟩
  | written text => exact ⟨rfl, Nat.le_refl _, List.prefix_rfl, List.Subset.refl _⟩
  | component i => exact ⟨rfl, Nat.le_refl _, List.prefix_rfl, List.Subset.refl _⟩

theorem addAll (s : Scope) (entries : List Entry) : s.Grows (s.addAll entries) := by
  induction entries generalizing s with
  | nil => exact refl s
  | cons e entries ih => exact (add s e).trans (ih _)

end Grows

def subjects (s : Scope) : List Nat := s.rules.map Rule.number ++ s.extra.filterMap ExtraRule.number?

/-- No class has two rules, and all classes with rules were allotted. -/
structure Apart (s : Scope) : Prop where
  increasing : (s.rules.map Rule.number).Pairwise (· < ·)
  nodup : s.subjects.Nodup
  lt : ∀ n ∈ s.subjects, n < s.nextClass

namespace Apart

/-- A scope in which the next class has become the subject of a rule, or just been passed over. -/
theorem of_next (h : s.Apart) (before after : List Nat) (hs : s.subjects = before ++ after)
    (hrules : (t.rules.map Rule.number).Pairwise (· < ·))
    (ht : t.subjects = before ++ after ∨ t.subjects = before ++ s.nextClass :: after)
    (hnext : t.nextClass = s.nextClass + 1) : t.Apart := by
  have hnodup := h.nodup
  have hlt := h.lt
  rw [hs] at hnodup hlt
  rcases ht with ht | ht
  · refine ⟨hrules, ht ▸ hnodup, fun n hn => ?_⟩
    rw [ht] at hn
    have := hlt n hn
    omega
  · -- The new number stands above all others.
    have hperm : t.subjects.Perm (s.nextClass :: (before ++ after)) := ht ▸ List.perm_middle
    refine ⟨hrules, ?_, fun n hn => ?_⟩
    · rw [hperm.nodup_iff, List.nodup_cons]
      exact ⟨fun hn => Nat.lt_irrefl _ (hlt _ hn), hnodup⟩
    · rcases List.mem_cons.1 (hperm.mem_iff.1 hn) with rfl | hn
      · omega
      · have := hlt n hn
        omega

theorem addStyle (h : s.Apart) (style : StyleMap) : (s.addStyle style).2.Apart := by
  have hrules := s.rules_addStyle style
  have hextra := (s.addStyle_frame style).2.1
  refine h.of_next (s.rules.map Rule.number) _ rfl ?_ ?_ (s.nextClass_addStyle style)
  · rw [hrules, Rule.of?]
    split
    · rw [Option.toList_none, List.append_nil]
      exact h.increasing
    · rw [Option.toList_some, List.map_append, List.pairwise_append]
      refine ⟨h.increasing, List.pairwise_singleton .., fun n hn m hm => ?_⟩
      obtain rfl := List.mem_singleton.1 hm
      exact h.lt n (List.mem_append_left _ hn)
  · rw [subjects, hrules, hextra, Rule.of?]
    split
    · exact .inl (by simp)
    · exact .inr (by simp)

theorem add (h : s.Apart) (e : Entry) : (s.add e).Apart := by
  cases e with
  | style style => exact h.addStyle style
  | allotted selector declarations =>
      refine h.of_next s.subjects [] (List.append_nil _).symm h.increasing (.inr ?_) rfl
      change s.rules.map Rule.number ++ (s.extra ++ [_]).filterMap ExtraRule.number? = _
      rw [List.filterMap_append, ← List.append_assoc]
      rfl
  | bare => exact h.of_next s.subjects [] (List.append_nil _).symm h.increasing (.inl (List.append_nil _).symm) rfl
  | written text =>
      have hsubjects : (s.add (.written text)).subjects = s.subjects := by
        change s.rules.map Rule.number ++ (s.extra ++ [_]).filterMap ExtraRule.number? = _
        rw [List.filterMap_append]
        exact congrArg _ (List.append_nil _)
      exact ⟨h.increasing, hsubjects ▸ h.nodup, hsubjects ▸ h.lt⟩
  | property name type => exact ⟨h.increasing, h.nodup, h.lt⟩
  | component i => exact ⟨h.increasing, h.nodup, h.lt⟩

theorem addAll (h : s.Apart) (entries : List Entry) : (s.addAll entries).Apart := by
  induction entries generalizing s with
  | nil => exact h
  | cons e entries ih => exact ih (h.add e)

end Apart

end Scope

end DesignCompiler

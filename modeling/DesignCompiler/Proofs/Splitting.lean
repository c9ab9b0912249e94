import Mathlib.Algebra.GroupWithZero.Nat
import DesignCompiler.Proofs.Numerals
import DesignCompiler.Text.Runs

namespace DesignCompiler.Text

def length16 (text : List Char) : Nat := (text.map units).sum

def styleAfter (styles : List Nat) (before : List Char) : Nat := styles.getD (length16 before) 0

namespace Piece

def chars : Piece → List Char
  | run text .. => text.toList
  | lineBreak _ | blankLine _ => ['\n']

def key : Piece → String
  | run _ _ _ key | lineBreak key | blankLine key => key

def index? : Piece → Option Nat
  | run _ _ index _ => some index
  | lineBreak _ | blankLine _ => none

/-- The break for a line feed after a text. -/
def feedAfter (before : List Char) : Piece :=
  let key := breakKey (length16 before)
  if before.getLast? = some '\n' then blankLine key else lineBreak key

end Piece

/-- A text cut at its line feeds and between characters of different styles, and nowhere else. -/
structure IsSplit (text : List Char) (styles : List Nat) (pieces : List Piece) : Prop where
  lossless : pieces.flatMap Piece.chars = text
  run : ∀ before s style index key after, pieces = before ++ .run s style index key :: after →
    s ≠ "" ∧ '\n' ∉ s.toList ∧ ∀ u c v, s.toList = u ++ c :: v →
      styleAfter styles (before.flatMap Piece.chars ++ u) = style
  /-- Runs beside each other differ in style. -/
  maximal : ∀ before s style index key s' style' index' key' after,
    pieces = before ++ .run s style index key :: .run s' style' index' key' :: after → style ≠ style'
  indices : pieces.filterMap Piece.index? = List.range (pieces.filterMap Piece.index?).length
  feed : ∀ before after, text = before ++ '\n' :: after → ∃ earlier later,
    pieces = earlier ++ .feedAfter before :: later ∧ earlier.flatMap Piece.chars = before
  nodup_keys : (pieces.map Piece.key).Nodup

theorem length16_append (s t : List Char) : length16 (s ++ t) = length16 s + length16 t := by
  rw [length16, List.map_append, List.sum_append, length16, length16]

theorem units_pos (c : Char) : 0 < units c := by
  unfold units
  split <;> decide

theorem length16_pos {s : List Char} (h : s ≠ []) : 0 < length16 s := by
  obtain ⟨c, cs, rfl⟩ := List.exists_cons_of_ne_nil h
  have hc := units_pos c
  simp only [length16, List.map_cons, List.sum_cons]
  omega

/-- Pieces of what follows the text `before`, in which the run right before them has the style `last`. -/
inductive Covers (text : List Char) (styles : List Nat) :
    (before : List Char) → (index : Nat) → (last : Option Nat) → List Piece → Prop
  | nil {index last} : Covers text styles text index last []
  | run {before index last s style key rest} (nonempty : s ≠ []) (unbroken : '\n' ∉ s)
      (styled : ∀ u c v, s = u ++ c :: v → styleAfter styles (before ++ u) = style)
      (fresh : last ≠ some style)
      (key_eq : key = toString (length16 (before ++ s)) ∨ key = "end" ∧ rest = [])
      (later : Covers text styles (before ++ s) (index + 1) (some style) rest) :
      Covers text styles before index last (.run (.ofList s) style index key :: rest)
  | feed {before index last rest} (later : Covers text styles (before ++ ['\n']) index none rest) :
      Covers text styles before index last (.feedAfter before :: rest)

namespace Covers

variable {text : List Char} {styles : List Nat} {before : List Char} {index : Nat} {last : Option Nat}
  {pieces : List Piece}

theorem chars_feedAfter (before : List Char) : (Piece.feedAfter before).chars = ['\n'] := by
  unfold Piece.feedAfter
  dsimp only
  split <;> rfl

theorem key_feedAfter (before : List Char) :
    (Piece.feedAfter before).key = breakKey (length16 before) := by
  unfold Piece.feedAfter
  dsimp only
  split <;> rfl

theorem index?_feedAfter (before : List Char) : (Piece.feedAfter before).index? = none := by
  unfold Piece.feedAfter
  dsimp only
  split <;> rfl

theorem append_chars (h : Covers text styles before index last pieces) :
    before ++ pieces.flatMap Piece.chars = text := by
  induction h with
  | nil => rw [List.flatMap_nil, List.append_nil]
  | run _ _ _ _ _ _ ih => rw [← ih, List.flatMap_cons, Piece.chars, String.toList_ofList, List.append_assoc]
  | feed _ ih => rw [← ih, List.flatMap_cons, chars_feedAfter, List.append_assoc]

theorem of_run {s key : String} {style index' : Nat}
    (h : Covers text styles before index last (.run s style index' key :: pieces)) :
    s ≠ "" ∧ '\n' ∉ s.toList ∧
      (∀ u c v, s.toList = u ++ c :: v → styleAfter styles (before ++ u) = style) ∧ last ≠ some style ∧
      Covers text styles (before ++ s.toList) (index + 1) (some style) pieces := by
  generalize hrun : Piece.run s style index' key :: pieces = all at h
  cases h with
  | nil => cases hrun
  | run nonempty unbroken styled fresh _ later =>
      cases hrun
      rw [String.toList_ofList]
      exact ⟨by simpa using nonempty, unbroken, styled, fresh, later⟩
  | feed _ =>
      have hindex := congrArg Piece.index? (List.cons.inj hrun).1
      rw [index?_feedAfter] at hindex
      cases hindex

theorem drop {earlier later : List Piece} (h : Covers text styles before index last (earlier ++ later)) :
    ∃ index' last', Covers text styles (before ++ earlier.flatMap Piece.chars) index' last' later := by
  induction earlier generalizing before index last with
  | nil => exact ⟨index, last, by simpa using h⟩
  | cons piece earlier ih =>
      rw [List.flatMap_cons, ← List.append_assoc]
      cases h with
      | run _ _ _ _ _ hlater => exact ih (by simpa [Piece.chars] using hlater)
      | feed hlater => exact ih (by rwa [chars_feedAfter])

theorem indices (h : Covers text styles before index last pieces) :
    pieces.filterMap Piece.index? = List.range' index (pieces.filterMap Piece.index?).length := by
  induction h with
  | nil => rfl
  | run _ _ _ _ _ _ ih =>
      rw [List.filterMap_cons_some (by rfl), List.length_cons, List.range'_succ, ← ih]
  | feed _ ih => rwa [List.filterMap_cons_none (index?_feedAfter _)]

theorem exists_feed (h : Covers text styles before index last pieces) {u v : List Char}
    (htext : text = before ++ u ++ '\n' :: v) : ∃ earlier later,
      pieces = earlier ++ .feedAfter (before ++ u) :: later ∧ earlier.flatMap Piece.chars = u := by
  induction h generalizing u with
  | nil => simp at htext
  | @run before index last s style key rest _ unbroken _ _ _ later ih =>
      -- The line feed is not in the run, so that it stands behind it.
      have hsplit : s ++ rest.flatMap Piece.chars = u ++ '\n' :: v := by
        have happend := later.append_chars
        rw [htext, List.append_assoc, List.append_assoc] at happend
        exact List.append_cancel_left happend
      obtain ⟨w, rfl⟩ : ∃ w, u = s ++ w := by
        rcases List.append_eq_append_iff.1 hsplit with ⟨w, hw, -⟩ | ⟨w, rfl, hw⟩
        · exact ⟨w, hw⟩
        · cases w with
          | nil => exact ⟨[], by simp⟩
          | cons c w =>
              cases hw
              simp at unbroken
      obtain ⟨earlier, after, hrest, hchars⟩ := ih (u := w) (by simp [htext])
      refine ⟨.run (.ofList s) style index key :: earlier, after, ?_, ?_⟩
      · rw [hrest, List.append_assoc, List.cons_append]
      · rw [List.flatMap_cons, Piece.chars, String.toList_ofList, hchars]
  | @feed before index last rest later ih =>
      have hsplit : '\n' :: rest.flatMap Piece.chars = u ++ '\n' :: v := by
        have happend := later.append_chars
        rw [htext, List.append_assoc, List.append_assoc] at happend
        exact List.append_cancel_left happend
      cases u with
      | nil => exact ⟨[], rest, by simp, rfl⟩
      | cons c u =>
          obtain ⟨rfl, -⟩ := List.cons.inj hsplit
          obtain ⟨earlier, after, hrest, hchars⟩ := ih (u := u) (by simp [htext])
          refine ⟨.feedAfter before :: earlier, after, ?_, ?_⟩
          · rw [hrest, List.append_assoc, List.singleton_append, List.cons_append]
          · rw [List.flatMap_cons, chars_feedAfter, hchars, List.singleton_append]

inductive KeyFrom (offset : Nat) : String → Prop
  | last : KeyFrom offset "end"
  | run {n : Nat} (h : offset < n) : KeyFrom offset (toString n)
  | feed {n : Nat} (h : offset ≤ n) : KeyFrom offset (breakKey n)

theorem KeyFrom.mono {m n : Nat} {key : String} (h : KeyFrom n key) (hle : m ≤ n) : KeyFrom m key := by
  cases h with
  | last => exact .last
  | run h => exact .run (by omega)
  | feed h => exact .feed (by omega)

theorem toString_injective {m n : Nat} (h : toString m = toString n) : m = n := by
  rw [← Decimal.natOfDigits_toString m, h, Decimal.natOfDigits_toString]

theorem toString_ne_of_head {n : Nat} {c : Char} {s : String} (hc : c.isDigit = false)
    (hs : s.toList.head? = some c) : toString n ≠ s := by
  rintro rfl
  have hdigit := (Decimal.isDigits_toString n).2 c (List.mem_of_mem_head? hs)
  rw [hc] at hdigit
  cases hdigit

theorem head?_breakKey (n : Nat) : (breakKey n).toList.head? = some 'b' := by
  rw [breakKey, String.toList_append]
  rfl

theorem not_keyFrom_toString {n : Nat} : ¬KeyFrom n (toString n) := by
  intro h
  generalize hkey : toString n = key at h
  cases h with
  | last => exact toString_ne_of_head (c := 'e') (by decide) rfl hkey
  | run h => exact absurd (toString_injective hkey) (by omega)
  | feed _ => exact toString_ne_of_head (by decide) (head?_breakKey _) hkey

theorem not_keyFrom_breakKey {m n : Nat} (h : m < n) : ¬KeyFrom n (breakKey m) := by
  intro hfrom
  generalize hkey : breakKey m = key at hfrom
  cases hfrom with
  | last =>
      have hhead := head?_breakKey m
      rw [hkey] at hhead
      cases hhead
  | run _ => exact toString_ne_of_head (by decide) (head?_breakKey _) hkey.symm
  | feed hle =>
      have heq := toString_injective ((String.append_right_inj "br").1 hkey)
      omega

theorem keyFrom_of_mem (h : Covers text styles before index last pieces) :
    ∀ key ∈ pieces.map Piece.key, KeyFrom (length16 before) key := by
  induction h with
  | nil => simp
  | @run before index last s style key rest nonempty _ _ _ key_eq _ ih =>
      have hs := length16_pos nonempty
      have happend := length16_append before s
      rw [List.map_cons]
      intro key' hmem
      rcases List.mem_cons.1 hmem with rfl | hmem
      · rcases key_eq with rfl | ⟨rfl, -⟩
        · exact .run (by omega)
        · exact .last
      · exact (ih key' hmem).mono (by omega)
  | @feed before index last rest _ ih =>
      have happend := length16_append before ['\n']
      rw [List.map_cons, key_feedAfter]
      intro key' hmem
      rcases List.mem_cons.1 hmem with rfl | hmem
      · exact .feed (Nat.le_refl _)
      · exact (ih key' hmem).mono (by omega)

theorem nodup_keys (h : Covers text styles before index last pieces) : (pieces.map Piece.key).Nodup := by
  induction h with
  | nil => exact List.nodup_nil
  | @run before index last s style key rest _ _ _ _ key_eq later ih =>
      rw [List.map_cons, List.nodup_cons]
      refine ⟨fun hmem => ?_, ih⟩
      rcases key_eq with rfl | ⟨rfl, rfl⟩
      · exact not_keyFrom_toString (later.keyFrom_of_mem _ hmem)
      · cases hmem
  | @feed before index last rest later ih =>
      have hfeed : length16 before < length16 (before ++ ['\n']) := by
        have happend := length16_append before ['\n']
        have hpos := length16_pos (List.cons_ne_nil '\n' [])
        omega
      rw [List.map_cons, List.nodup_cons, key_feedAfter]
      exact ⟨fun hmem => not_keyFrom_breakKey hfeed (later.keyFrom_of_mem _ hmem), ih⟩

end Covers

/-- An open run goes on after a text whose last run has the style `last`. -/
structure OpenRun.Follows (styles : List Nat) (before : List Char) (last : Option Nat) (run : OpenRun) :
    Prop where
  unbroken : '\n' ∉ run.chars
  styled : ∀ u c v, run.chars.reverse = u ++ c :: v → styleAfter styles (before ++ u) = run.style
  fresh : last ≠ some run.style
  idle : run.chars = [] → last = none

variable {text : List Char} {styles : List Nat} {before : List Char} {last : Option Nat} {run : OpenRun}
  {pieces : List Piece}

theorem OpenRun.Follows.covers_close (h : run.Follows styles before last) (key : String)
    (hkey : key = toString (length16 (before ++ run.chars.reverse)) ∨ key = "end" ∧ pieces = [])
    (later : Covers text styles (before ++ run.chars.reverse) (run.close key).2.index
      (if run.chars = [] then last else some run.style) pieces) :
    Covers text styles before run.index last ((run.close key).1 ++ pieces) := by
  by_cases hchars : run.chars = []
  · rw [OpenRun.close, hchars] at later ⊢
    simpa using later
  · have hclose : run.close key = ([.run (.ofList run.chars.reverse) run.style run.index key],
        { run with chars := [], index := run.index + 1 }) := by
      rw [OpenRun.close, if_neg (by simpa using hchars)]
    rw [if_neg hchars, hclose] at later
    rw [hclose]
    exact .run (by simpa using hchars) (by simpa using h.unbroken) h.styled h.fresh hkey later

theorem chars_close (run : OpenRun) (key : String) : (run.close key).2.chars = [] := by
  unfold OpenRun.close
  split
  · next h => simpa using h
  · rfl

theorem OpenRun.Follows.nil (h : run.chars = []) : run.Follows styles before none where
  unbroken := by simp [h]
  styled u c v hu := by simp [h] at hu
  fresh := by simp
  idle _ := rfl

theorem OpenRun.Follows.chars_eq_nil (h : run.Follows styles before last)
    (hfeed : (before ++ run.chars.reverse).getLast? = some '\n') : run.chars = [] := by
  cases hchars : run.chars with
  | nil => rfl
  | cons c chars =>
      rw [hchars, List.reverse_cons, ← List.append_assoc, List.getLast?_concat] at hfeed
      have hunbroken := h.unbroken
      rw [hchars, Option.some.inj hfeed] at hunbroken
      exact absurd List.mem_cons_self hunbroken

theorem OpenRun.Follows.cons (h : run.Follows styles before last) {c : Char} (hc : c ≠ '\n')
    (hstyle : styleAfter styles (before ++ run.chars.reverse) = run.style) :
    OpenRun.Follows styles before last { run with chars := c :: run.chars } where
  unbroken := by simpa [hc.symm] using h.unbroken
  styled u d v hu := by
    rw [List.reverse_cons] at hu
    rcases List.eq_nil_or_concat v with rfl | ⟨v, e, rfl⟩
    · obtain ⟨rfl, -⟩ := List.append_inj' hu rfl
      exact hstyle
    · rw [List.concat_eq_append, ← List.cons_append, ← List.append_assoc] at hu
      obtain ⟨hu, -⟩ := List.append_inj' hu rfl
      exact h.styled u d v hu
  fresh := h.fresh
  idle hnil := by cases hnil

theorem OpenRun.Follows.singleton {c : Char} (hc : c ≠ '\n') (hlast : last ≠ some (styleAfter styles before))
    (index : Nat) : OpenRun.Follows styles before last ⟨[c], styleAfter styles before, index⟩ where
  unbroken := by simpa using hc.symm
  styled u d v hu := by
    cases u with
    | nil => rw [List.append_nil]
    | cons d' u => simp at hu
  fresh := hlast
  idle hnil := by cases hnil

/-- The step of the cutting: what is left after an open run is cut into pieces that cover it. -/
theorem covers_runsFrom (rest : List Char) (h : run.Follows styles before last)
    (htext : text = before ++ run.chars.reverse ++ rest) (offset : Nat)
    (hoffset : offset = length16 (before ++ run.chars.reverse)) (afterFeed : Bool)
    (hfeed : afterFeed = decide ((before ++ run.chars.reverse).getLast? = some '\n')) :
    Covers text styles before run.index last
      (runsFrom offset afterFeed (styles.drop offset) run rest) := by
  induction rest generalizing before last run offset afterFeed with
  | nil =>
      rw [runsFrom, ← List.append_nil (run.close "end").1]
      refine h.covers_close "end" (.inr ⟨rfl, rfl⟩) ?_
      rw [List.append_nil] at htext
      rw [← htext]
      exact .nil
  | cons c rest ih =>
      have hnext : offset + units c = length16 (before ++ run.chars.reverse ++ [c]) := by
        rw [length16_append, ← hoffset]
        rfl
      have hfirst : (styles.drop offset).headD 0 = styleAfter styles (before ++ run.chars.reverse) := by
        rw [styleAfter, ← hoffset, List.headD_eq_head?_getD, List.head?_drop, List.getD_eq_getElem?_getD]
      have hlast : (before ++ run.chars.reverse ++ [c]).getLast? = some c := by simp
      rw [runsFrom, List.drop_drop]
      dsimp only
      split
      · next hc =>
        -- The run ends before the line feed; after another line feed it is empty.
        subst hc
        have hclosed := h.covers_close (toString offset) (.inl (by rw [hoffset]))
          (.feed (ih (.nil (chars_close run _)) (by simp [chars_close, htext]) (offset + units '\n')
            (by simpa [chars_close] using hnext) true (by simp [chars_close])))
        rw [Piece.feedAfter, ← hoffset] at hclosed
        split
        · next hafter =>
          rw [hafter, eq_comm, decide_eq_true_iff] at hfeed
          have hchars : run.chars = [] := h.chars_eq_nil hfeed
          rw [if_pos hfeed, OpenRun.close, hchars] at hclosed
          exact hclosed
        · next hafter =>
          rw [Bool.not_eq_true, hfeed, decide_eq_false_iff_not] at hafter
          rw [if_neg hafter] at hclosed
          exact hclosed
      · next hc =>
        have hfalse : false = decide ((before ++ run.chars.reverse ++ [c]).getLast? = some '\n') := by
          rw [hlast, eq_comm, decide_eq_false_iff_not]
          exact fun heq => hc (Option.some.inj heq)
        split
        · next hstyle =>
          rw [hfirst] at hstyle
          exact ih (h.cons hc hstyle) (by simp [htext]) _ (by simpa using hnext) _ (by simpa using hfalse)
        · next hstyle =>
          rw [hfirst] at hstyle ⊢
          refine h.covers_close _ (.inl (by rw [hoffset])) ?_
          refine ih (.singleton hc ?_ _) (by simp [htext]) _ (by simpa using hnext) _ (by simpa using hfalse)
          split
          · next hchars => simp [h.idle hchars]
          · exact fun heq => hstyle (Option.some.inj heq).symm

/-- A text is cut into its runs and breaks, whatever its styles are. -/
theorem isSplit_runs (text : String) (styles : List Nat) :
    IsSplit text.toList styles (runs text styles) := by
  have hopen : OpenRun.Follows styles [] none {} := .nil rfl
  have hcovers : Covers text.toList styles [] 0 none (runs text styles) :=
    covers_runsFrom text.toList hopen rfl 0 rfl false rfl
  constructor
  · simpa using hcovers.append_chars
  · intro before s style index key after hpieces
    rw [hpieces] at hcovers
    obtain ⟨index', last, hlater⟩ := hcovers.drop
    obtain ⟨hnonempty, hunbroken, hstyled, -, -⟩ := hlater.of_run
    exact ⟨hnonempty, hunbroken, hstyled⟩
  · intro before s style index key s' style' index' key' after hpieces
    rw [hpieces] at hcovers
    obtain ⟨index'', last, hlater⟩ := hcovers.drop
    obtain ⟨-, -, -, -, hnext⟩ := hlater.of_run
    obtain ⟨-, -, -, hfresh, -⟩ := hnext.of_run
    exact fun heq => hfresh (congrArg some heq)
  · rw [List.range_eq_range']
    exact hcovers.indices
  · intro before after htext
    exact hcovers.exists_feed htext
  · exact hcovers.nodup_keys

example : runs "a\n\nb" [0, 0, 0, 7] =
    [.run "a" 0 0 "1", .lineBreak "br1", .blankLine "br2", .run "b" 7 1 "end"] := by
  decide

end DesignCompiler.Text

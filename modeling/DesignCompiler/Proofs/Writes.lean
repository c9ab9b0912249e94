import Mathlib.Data.List.Basic
import DesignCompiler.CommandLine.Run
import DesignCompiler.Files.Memory

namespace DesignCompiler

/-- The property holds after a step if it held before, whatever the step returns. -/
def Maintains {σ α : Type} (P : σ → Prop) (x : StateM σ α) : Prop := ∀ s, P s → P (x.run s).2

namespace Maintains

variable {σ α β ε : Type} {P : σ → Prop}

theorem pure (a : α) : Maintains P (Pure.pure a) := fun _ h => h

theorem bind {x : StateM σ α} {f : α → StateM σ β} (hx : Maintains P x) (hf : ∀ a, Maintains P (f a)) :
    Maintains P (x >>= f) := fun s h => hf _ _ (hx s h)

theorem mapM {f : α → StateM σ β} (hf : ∀ a, Maintains P (f a)) (l : List α) :
    Maintains P (l.mapM f) := by
  induction l with
  | nil => exact pure []
  | cons a l ih =>
      rw [List.mapM_cons]
      exact bind (hf a) fun b => bind ih fun bs => pure (b :: bs)

theorem run_bind_eq (x : ExceptT ε (StateM σ) α) (f : α → ExceptT ε (StateM σ) β) (s : σ) :
    (x >>= f).run.run s =
      match x.run.run s with
      | (.ok a, t) => (f a).run.run t
      | (.error e, t) => (.error e, t) := by
  rw [ExceptT.run_bind, StateT.run_bind]
  rcases x.run.run s with ⟨_ | a, t⟩ <;> rfl

theorem bind_of {x : ExceptT ε (StateM σ) α} {f : α → ExceptT ε (StateM σ) β} {Q : α → Prop}
    (hx : Maintains P x.run) (hq : ∀ s a, (x.run.run s).1 = .ok a → Q a)
    (hf : ∀ a, Q a → Maintains P (f a).run) : Maintains P (x >>= f).run := by
  intro s h
  have hs := hx s h
  rw [run_bind_eq]
  rcases hr : x.run.run s with ⟨e | a, t⟩ <;> rw [hr] at hs
  · exact hs
  · exact hf a (hq s a (congrArg Prod.fst hr)) t hs

theorem bind_run {x : ExceptT ε (StateM σ) α} {f : α → ExceptT ε (StateM σ) β}
    (hx : Maintains P x.run) (hf : ∀ a, Maintains P (f a).run) : Maintains P (x >>= f).run :=
  bind_of (Q := fun _ => True) hx (fun _ _ _ => trivial) fun a _ => hf a

theorem forM_run {f : α → ExceptT ε (StateM σ) PUnit} {l : List α}
    (hf : ∀ a ∈ l, Maintains P (f a).run) : Maintains P (l.forM f).run := by
  induction l with
  | nil => exact pure _
  | cons a l ih =>
      exact bind_run (hf a List.mem_cons_self) fun _ => ih fun b hb => hf b (List.mem_cons_of_mem a hb)

theorem lift_run {x : StateM σ α} (hx : Maintains P x) :
    Maintains P (liftM x : ExceptT ε (StateM σ) α).run := bind hx fun _ => pure _

theorem runM {answer : (q : Question) → StateM σ (Except FetchError q.Answer)}
    (ha : ∀ q, Maintains P (answer q)) (c : Conversation α) : Maintains P (c.runM answer) := by
  induction c with
  | done a => exact pure a
  | ask q next ih => exact bind (ha q) ih

end Maintains

theorem length_toList_loop (b : ByteArray) (i : Nat) (bytes : Bytes) :
    (ByteArray.toList.loop b i bytes).length = (b.size - i) + bytes.length := by
  induction hk : b.size - i generalizing i bytes with
  | zero => rw [ByteArray.toList.loop, if_neg (by omega), List.length_reverse, Nat.zero_add]
  | succ k ih =>
      rw [ByteArray.toList.loop, if_pos (by omega), ih _ _ (by omega), List.length_cons]
      omega

theorem Bytes.length_ofString (s : String) : (Bytes.ofString s).length = s.utf8ByteSize := by
  rw [Bytes.ofString, ByteArray.toList, length_toList_loop]
  rfl

namespace Text

theorem notMem_of_cut?_eq_none {c : Char} {s : List Char} (h : cut? [c] s = none) : c ∉ s := by
  induction s with
  | nil => simp
  | cons d s ih =>
      by_cases hd : c = d
      · simp [cut?, after?, hd] at h
      · have hrest : cut? [c] s = none := by simpa [cut?, after?, hd] using h
        simpa [hd] using ih hrest

theorem notMem_of_cut?_eq_some {c : Char} {s before rest : List Char}
    (h : cut? [c] s = some (before, rest)) : c ∉ before := by
  induction s generalizing before with
  | nil => simp [cut?, after?] at h
  | cons d s ih =>
      by_cases hd : c = d
      · obtain ⟨rfl, -⟩ : before = [] ∧ s = rest := by simpa [cut?, after?, hd, eq_comm] using h
        simp
      · obtain ⟨⟨b, r⟩, hcut, heq⟩ : ∃ p, cut? [c] s = some p ∧ (d :: p.1, p.2) = (before, rest) := by
          simpa [cut?, after?, hd] using h
        cases heq
        simpa [hd] using ih hcut

theorem splitChars_singleton (c : Char) (s : List Char) : splitChars [c] s = s.splitOn c := by
  rw [splitChars, dif_neg (List.cons_ne_nil c [])]
  induction hk : s.length using Nat.strongRecOn generalizing s with
  | ind k ih =>
      subst hk
      rw [pieces]
      split
      · next h => rw [List.splitOn_eq_singleton (notMem_of_cut?_eq_none h)]
      · next before rest h =>
        have hlt := length_lt_of_cut? (List.cons_ne_nil c []) h
        have hs := eq_append_of_cut? h
        have hsplit : s.splitOn c = before :: rest.splitOn c := by
          rw [hs, List.append_assoc, List.singleton_append, List.splitOn_append_cons_self,
            List.splitOn_eq_singleton (notMem_of_cut?_eq_some h)]
          rfl
        rw [hsplit, ← ih _ hlt rest rfl]

end Text

namespace Files

def EndsIn (name path : String) : Prop := (path.toList.splitOn '/').getLast? = some name.toList

namespace EndsIn

variable {name name' path dir : String}

theorem unique (h : EndsIn name path) (h' : EndsIn name' path) : name = name' :=
  String.toList_inj.1 (Option.some.inj (h.symm.trans h'))

theorem join (dir : String) (h : '/' ∉ name.toList) : EndsIn name (join dir name) := by
  have hlone : EndsIn name name := by rw [EndsIn, List.splitOn_eq_singleton h, List.getLast?_singleton]
  have hrelative : isAbsolute name = false := by
    rw [isAbsolute, decide_eq_false_iff_not]
    exact fun hslash => h (List.mem_of_mem_head? hslash)
  have hafter : ∀ before : List Char, ((before ++ '/' :: name.toList).splitOn '/').getLast? =
      some name.toList := by
    intro before
    rw [List.splitOn_append_cons_self, List.getLast?_append_of_ne_nil _ (List.splitOn_ne_nil _ _)]
    exact hlone
  by_cases hempty : dir = ""
  · simpa [Files.join, hrelative, hempty] using hlone
  · by_cases hslash : dir.toList.getLast? = some '/'
    · obtain ⟨init, hinit⟩ := List.getLast?_eq_some_iff.1 hslash
      simpa [EndsIn, Files.join, hrelative, hinit] using hafter init
    · simpa [EndsIn, Files.join, hrelative, hempty, hslash] using hafter dir.toList

theorem split (h : EndsIn name path) : ∃ front, Text.split "/" path = front ++ [name] := by
  obtain ⟨front, hfront⟩ := List.getLast?_eq_some_iff.1 h
  refine ⟨front.map .ofList, ?_⟩
  have hmark : "/".toList = ['/'] := rfl
  rw [Text.split, hmark, Text.splitChars_singleton, hfront, List.map_append]
  simp

/-- The last name of a path is the last one of its key, unless it stands for a directory. -/
theorem key (h : EndsIn name path) (hslash : '/' ∉ name.toList) (hname : name ∉ ["", ".", ".."]) :
    EndsIn name (FileTable.key path) := by
  obtain ⟨front, hfront⟩ := h.split
  simp only [List.mem_cons, List.not_mem_nil, or_false, not_or] at hname
  obtain ⟨before, hparts⟩ : ∃ before, parts path = before ++ [name] := by
    rw [parts, hfront, List.foldl_append, List.foldl_cons, List.foldl_nil, if_neg (by simp [hname]),
      if_neg hname.2.2]
    exact ⟨_, rfl⟩
  have hmark : "/".toList = ['/'] := rfl
  rw [EndsIn, FileTable.key, hparts, String.toList_intercalate, hmark, List.map_append, List.map_singleton]
  clear hparts
  induction before with
  | nil => simp [List.splitOn_eq_singleton hslash]
  | cons part before ih =>
      rw [List.map_cons, List.cons_append]
      obtain ⟨next, rest, hrest⟩ := List.exists_cons_of_ne_nil
        (List.append_ne_nil_of_right_ne_nil (before.map String.toList) (List.cons_ne_nil name.toList []))
      rw [hrest, List.intercalate_cons_cons, List.append_assoc, List.singleton_append,
        List.splitOn_append_cons_self, List.getLast?_append_of_ne_nil _ (List.splitOn_ne_nil _ _), ← hrest]
      exact ih

end EndsIn

end Files

namespace CommandLine

open Maintains

variable {P : FileTable → Prop}

theorem maintains_loadOptions (a : Arguments) : Maintains P (loadOptions FileTable.asFiles a).run := by
  unfold loadOptions
  refine bind_run (pure _) fun base => ?_
  dsimp only
  cases a.options with
  | none =>
      exact bind_run (pure _) fun layered => bind_run (pure _) fun _ => pure _
  | some path =>
      exact bind_run (lift_run fun _ h => h) fun body => bind_run (pure _) fun _ =>
        bind_run (pure _) fun layered => bind_run (pure _) fun _ => pure _

theorem maintains_openDocument (path : String) :
    Maintains P (openDocument FileTable.asFiles path).run :=
  bind_run (lift_run fun _ h => h) fun _ => bind_run (pure _) fun _ => pure _

theorem maintains_answer (saved : SavedDocument) (assets : Option String) (q : Question) :
    Maintains P (saved.answer FileTable.asFiles assets q) := by
  cases q with
  | canvas => exact pure _
  | descriptions ids => exact pure _
  | exports request =>
      refine bind (mapM (fun id => bind ?_ fun _ => pure _) _) fun _ => pure _
      cases assets with
      | none => exact pure _
      | some dir => exact bind (fun _ h => h) fun _ => pure _
  | fills =>
      refine bind ?_ fun _ => pure _
      cases assets with
      | none => exact pure _
      | some dir => exact bind (fun _ h => h) fun _ => pure _
  | fetch url =>
      refine bind (fun _ h => h) fun r => ?_
      cases r <;> exact pure _

def writeFile {m : Type → Type} [Monad m] (files : Files m) (f : Output.GeneratedFile) :
    ExceptT Failure m Unit := do
  if !f.overwrite && (← files.isThere f.path) then return
  let directory := Files.parent f.path
  orFail (.makeDirectory directory) (← files.makeDirectory directory)
  orFail (.writeFile f.path) (← files.write f.path (Bytes.ofString f.content))

theorem writeFiles_cons (f : Output.GeneratedFile) (fs : List Output.GeneratedFile) :
    writeFiles FileTable.asFiles (f :: fs) =
      writeFile FileTable.asFiles f >>= fun _ => writeFiles FileTable.asFiles fs := rfl

theorem run_write (path : String) (bytes : Bytes) (t : FileTable) :
    (FileTable.asFiles.write path bytes).run t =
      match t.write path bytes with
      | .ok u => (.ok (), u)
      | .error e => (.error e, t) := by
  change StateT.run (match t.write path bytes with | .ok u => _ | .error e => _) t = _
  rcases t.write path bytes with e | u <;> rfl

theorem run_liftM_bind {α β σ : Type} (x : Except Failure α) (k : α → ExceptT Failure (StateM σ) β) (s : σ) :
    (liftM x >>= k : ExceptT Failure (StateM σ) β).run.run s =
      match x with
      | .ok a => (k a).run.run s
      | .error e => (.error e, s) := by
  cases x <;> rfl

theorem run_orFail {ε α β σ : Type} {x : StateM σ (Except ε α)} {f : Failure}
    {k : α → ExceptT Failure (StateM σ) β} (s : σ) :
    (do let r ← liftM x
        let a ← liftM (orFail f r)
        k a : ExceptT Failure (StateM σ) β).run.run s =
      match x.run s with
      | (.ok a, t) => (k a).run.run t
      | (.error _, t) => (.error f, t) := by
  have hlift : (liftM x : ExceptT Failure (StateM σ) (Except ε α)).run.run s =
      (.ok (x.run s).1, (x.run s).2) := rfl
  rw [ExceptT.run_bind, StateT.run_bind, hlift]
  change StateT.run (liftM (orFail f (x.run s).1) >>= k).run (x.run s).2 = _
  rw [run_liftM_bind]
  rcases x.run s with ⟨_ | a, t⟩ <;> rfl

/-- A file that must not be replaced is kept if it is there. Any other file is written, if it can be and
its directory can be made. -/
theorem run_writeFile (f : Output.GeneratedFile) (t : FileTable) :
    (writeFile FileTable.asFiles f).run.run t =
      if !f.overwrite && ((t.file? f.path).isSome || t.isDirectory f.path) then (.ok (), t)
      else
        match t.makeDirectory (Files.parent f.path) with
        | .error _ => (.error (.makeDirectory (Files.parent f.path)), t)
        | .ok _ =>
          match t.write f.path (Bytes.ofString f.content) with
          | .error _ => (.error (.writeFile f.path), t)
          | .ok u => (.ok (), u) := by
  change StateT.run (ExceptT.run (if !f.overwrite && ((t.file? f.path).isSome || t.isDirectory f.path)
    then _ else _)) t = _
  split
  · rfl
  · have hmake : (FileTable.asFiles.makeDirectory (Files.parent f.path)).run t =
        (t.makeDirectory (Files.parent f.path), t) := rfl
    rw [run_orFail, hmake]
    rcases t.makeDirectory (Files.parent f.path) with e | u
    · rfl
    · dsimp only
      have hlast := run_orFail (x := FileTable.asFiles.write f.path (Bytes.ofString f.content))
        (f := .writeFile f.path) (k := pure) t
      simp only [bind_pure] at hlast
      rw [hlast, run_write]
      rcases t.write f.path (Bytes.ofString f.content) with e | u <;> rfl

theorem write_eq_ok {path : String} {bytes : Bytes} {t u : FileTable}
    (h : t.write path bytes = .ok u) :
    Files.isDirectoryPath path = false ∧ Table.put (FileTable.key path) bytes t = u := by
  unfold FileTable.write at h
  split at h
  · cases h
  · next hfile =>
    split at h
    · cases h
    · rw [Bool.or_eq_true, not_or] at hfile
      exact ⟨Bool.eq_false_iff.2 hfile.2, Except.ok.inj h⟩

/-- A file is kept, or its step fails and changes nothing, or it is written under its key. -/
theorem writeFile_cases (f : Output.GeneratedFile) (t : FileTable) :
    (f.overwrite = false ∧ (writeFile FileTable.asFiles f).run.run t = (.ok (), t)) ∨
      (∃ e, (writeFile FileTable.asFiles f).run.run t = (.error e, t)) ∨
      ((writeFile FileTable.asFiles f).run.run t =
          (.ok (), Table.put (FileTable.key f.path) (Bytes.ofString f.content) t) ∧
        (f.overwrite = false → t.lookup (FileTable.key f.path) = none)) := by
  rw [run_writeFile]
  split
  · next hkept => exact .inl ⟨by simpa using (Bool.and_eq_true_iff.1 hkept).1, rfl⟩
  · next hnew =>
    refine .inr ?_
    cases t.makeDirectory (Files.parent f.path) with
    | error e => exact .inl ⟨_, rfl⟩
    | ok _ =>
        cases hwrite : t.write f.path (Bytes.ofString f.content) with
        | error e => exact .inl ⟨_, rfl⟩
        | ok u =>
            obtain ⟨hplain, rfl⟩ := write_eq_ok hwrite
            refine .inr ⟨rfl, fun hoverwrite => ?_⟩
            rw [hoverwrite, Bool.not_false, Bool.true_and, Bool.or_eq_true, not_or] at hnew
            have hfile := hnew.1
            rwa [FileTable.file?, hplain, if_neg Bool.false_ne_true, Option.not_isSome_iff_eq_none] at hfile

theorem maintains_writeFile_of {f : Output.GeneratedFile}
    (h : ∀ t, P t → (f.overwrite = false → t.lookup (FileTable.key f.path) = none) →
      P (Table.put (FileTable.key f.path) (Bytes.ofString f.content) t)) :
    Maintains P (writeFile FileTable.asFiles f).run := by
  intro t ht
  rcases writeFile_cases f t with ⟨-, hrun⟩ | ⟨e, hrun⟩ | ⟨hrun, hnew⟩ <;> rw [hrun]
  · exact ht
  · exact ht
  · exact h t ht hnew

theorem maintains_writeAssets_of {dir : String} {assets : List Assets.Emitted}
    (h : ∀ asset ∈ assets, ∀ t, P t →
      P (Table.put (FileTable.key (Files.join dir asset.fileName)) asset.bytes t)) :
    Maintains P (writeAssets FileTable.asFiles dir assets).run := by
  refine forM_run fun asset hasset => ?_
  refine bind_run (lift_run fun _ ht => ht) fun _ => bind_run (pure _) fun _ => bind_run (lift_run ?_) fun _ => pure _
  intro t ht
  rw [run_write]
  cases hwrite : t.write (Files.join dir asset.fileName) asset.bytes with
  | error e => exact ht
  | ok u =>
      obtain ⟨-, rfl⟩ := write_eq_ok hwrite
      exact h asset hasset t ht

section File

variable {k : String} {old : Bytes}

theorem maintains_writeFile {f : Output.GeneratedFile} (h : f.overwrite → FileTable.key f.path ≠ k) :
    Maintains (fun t : FileTable => t.lookup k = some old) (writeFile FileTable.asFiles f).run := by
  refine maintains_writeFile_of fun t ht hnew => ?_
  have hne : k ≠ FileTable.key f.path := by
    rintro rfl
    cases hoverwrite : f.overwrite with
    | true => exact h hoverwrite rfl
    | false => simp [hnew hoverwrite] at ht
  exact (Table.lookup_put_of_ne hne _ t).trans ht

theorem maintains_writeFiles {fs : List Output.GeneratedFile}
    (h : ∀ f ∈ fs, f.overwrite → FileTable.key f.path ≠ k) :
    Maintains (fun t : FileTable => t.lookup k = some old) (writeFiles FileTable.asFiles fs).run :=
  forM_run fun f hf => maintains_writeFile (h f hf)

/-- The bytes under a key after some files were written: of the last one that is written anew under it. -/
def bytesAfter (k : String) (old : Bytes) (fs : List Output.GeneratedFile) : Bytes :=
  ((fs.filter fun f => f.overwrite && FileTable.key f.path = k).getLast?.map
    fun f => Bytes.ofString f.content).getD old

theorem bytesAfter_cases (k : String) (old : Bytes) (fs : List Output.GeneratedFile) :
    (bytesAfter k old fs = old ∧ ∀ f ∈ fs, f.overwrite → FileTable.key f.path ≠ k) ∨
      ∃ f ∈ fs, f.overwrite ∧ FileTable.key f.path = k ∧ bytesAfter k old fs = Bytes.ofString f.content := by
  unfold bytesAfter
  cases hlast : (fs.filter fun f => f.overwrite && FileTable.key f.path = k).getLast? with
  | none =>
      refine .inl ⟨rfl, fun f hf hoverwrite hkey => ?_⟩
      have hempty := List.getLast?_eq_none_iff.1 hlast
      simpa [hoverwrite, hkey] using List.filter_eq_nil_iff.1 hempty f hf
  | some f =>
      obtain ⟨hf, hrewritten⟩ := List.mem_filter.1 (List.mem_of_getLast? hlast)
      rw [Bool.and_eq_true, decide_eq_true_eq] at hrewritten
      exact .inr ⟨f, hf, hrewritten.1, hrewritten.2, rfl⟩

theorem bytesAfter_cons (k : String) (old : Bytes) (f : Output.GeneratedFile)
    (fs : List Output.GeneratedFile) :
    bytesAfter k old (f :: fs) =
      bytesAfter k (if f.overwrite && FileTable.key f.path = k then Bytes.ofString f.content else old) fs := by
  unfold bytesAfter
  rw [List.filter_cons]
  split
  · rw [List.getLast?_cons]
    cases (fs.filter fun f => f.overwrite && FileTable.key f.path = k).getLast? <;> rfl
  · rfl

theorem lookup_of_writeFiles {fs : List Output.GeneratedFile} {t u : FileTable}
    (h : (writeFiles FileTable.asFiles fs).run.run t = (.ok (), u)) (ht : t.lookup k = some old) :
    u.lookup k = some (bytesAfter k old fs) := by
  induction fs generalizing t old with
  | nil =>
      cases h
      exact ht
  | cons f fs ih =>
      rw [writeFiles_cons, run_bind_eq] at h
      rw [bytesAfter_cons]
      rcases writeFile_cases f t with ⟨hkept, hrun⟩ | ⟨e, hrun⟩ | ⟨hrun, hnew⟩ <;> rw [hrun] at h
      · exact ih h (by simpa [hkept] using ht)
      · cases h
      · refine ih h ?_
        by_cases hkey : FileTable.key f.path = k
        · subst hkey
          cases hoverwrite : f.overwrite with
          | true => simp [Table.lookup_put_self]
          | false => simp [hnew hoverwrite] at ht
        · simpa [hkey, Table.lookup_put_of_ne (Ne.symm hkey)] using ht

end File

end CommandLine

end DesignCompiler

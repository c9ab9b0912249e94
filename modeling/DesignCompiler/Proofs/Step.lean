import Mathlib.Order.Defs.Unbundled
import DesignCompiler.Error

namespace DesignCompiler

/-- A step over a state; what it changed stays changed when it fails. -/
abbrev Step (σ α : Type) := ExceptT DesignError (StateM σ) α

namespace Step

variable {σ α β : Type}

def exec (x : Step σ α) (s : σ) : Except DesignError α × σ := x.run s

theorem exec_bind (x : Step σ α) (f : α → Step σ β) (s : σ) :
    exec (x >>= f) s =
      match exec x s with
      | (.ok a, t) => exec (f a) t
      | (.error e, t) => (.error e, t) := by
  simp only [exec, ExceptT.run_bind]
  change StateT.bind _ _ s = _
  simp only [StateT.bind]
  rcases x.run s with ⟨_ | a, t⟩ <;> rfl

theorem exec_pure (a : α) (s : σ) : exec (pure a) s = (.ok a, s) := rfl

theorem exec_throw (e : DesignError) (s : σ) : exec (throw e : Step σ α) s = (.error e, s) := rfl

theorem exec_lift_run (x : Step σ α) (s : σ) :
    exec (ExceptT.lift x.run : Step σ (Except DesignError α)) s =
      (.ok (exec x s).1, (exec x s).2) := rfl

theorem exec_bind_eq_ok {x : Step σ α} {f : α → Step σ β} {b : β} {s u : σ} :
    exec (x >>= f) s = (.ok b, u) ↔ ∃ a t, exec x s = (.ok a, t) ∧ exec (f a) t = (.ok b, u) := by
  rw [exec_bind]
  rcases exec x s with ⟨_ | a, t⟩ <;> simp [and_assoc]

theorem exec_mapM_cons_eq_ok {f : α → Step σ β} {a : α} {l : List α} {bs : List β} {s u : σ} :
    exec ((a :: l).mapM f) s = (.ok bs, u) ↔
      ∃ b t cs, exec (f a) s = (.ok b, t) ∧ exec (l.mapM f) t = (.ok cs, u) ∧ b :: cs = bs := by
  simp only [List.mapM_cons, exec_bind_eq_ok, exec_pure, Prod.mk.injEq, Except.ok.injEq]
  constructor
  · rintro ⟨b, t, hb, cs, u', hcs, hbs, rfl⟩
    exact ⟨b, t, cs, hb, hcs, hbs⟩
  · rintro ⟨b, t, cs, hb, hcs, hbs⟩
    exact ⟨b, t, hb, cs, u, hcs, hbs, rfl⟩

theorem exec_mapM_append_eq_ok {f : α → Step σ β} {l m : List α} {bs : List β} {s u : σ} :
    exec ((l ++ m).mapM f) s = (.ok bs, u) ↔
      ∃ cs t ds, exec (l.mapM f) s = (.ok cs, t) ∧ exec (m.mapM f) t = (.ok ds, u) ∧ cs ++ ds = bs := by
  simp only [List.mapM_append, exec_bind_eq_ok, exec_pure, Prod.mk.injEq, Except.ok.injEq]
  constructor
  · rintro ⟨cs, t, hcs, ds, u', hds, hbs, rfl⟩
    exact ⟨cs, t, ds, hcs, hds, hbs⟩
  · rintro ⟨cs, t, ds, hcs, hds, hbs⟩
    exact ⟨cs, t, hcs, ds, u, hds, hbs, rfl⟩

/-- Each result of a sequence is that of one of its steps, after all steps before it. -/
theorem exists_split_of_exec_mapM {f : α → Step σ β} {l : List α} {bs : List β} {b : β} {s u : σ}
    (h : exec (l.mapM f) s = (.ok bs, u)) (hb : b ∈ bs) :
    ∃ before a after cs t v, l = before ++ a :: after ∧ exec (before.mapM f) s = (.ok cs, t) ∧
      exec (f a) t = (.ok b, v) := by
  induction l generalizing bs s with
  | nil =>
      rw [List.mapM_nil, exec_pure] at h
      cases h
      cases hb
  | cons a l ih =>
      obtain ⟨c, t, cs, hc, hcs, rfl⟩ := exec_mapM_cons_eq_ok.1 h
      rcases List.mem_cons.1 hb with rfl | hb
      · exact ⟨[], a, l, [], s, t, rfl, rfl, hc⟩
      · obtain ⟨before, a', after, ds, t', v, rfl, hds, hb⟩ := ih hcs hb
        refine ⟨a :: before, a', after, c :: ds, t', v, rfl, ?_, hb⟩
        exact exec_mapM_cons_eq_ok.2 ⟨c, t, ds, hc, hds, rfl⟩

theorem exists_of_mem_of_exec_mapM {f : α → Step σ β} {l : List α} {bs : List β} {b : β} {s u : σ}
    (h : exec (l.mapM f) s = (.ok bs, u)) (hb : b ∈ bs) :
    ∃ a ∈ l, ∃ t v, exec (f a) t = (.ok b, v) := by
  obtain ⟨before, a, after, -, t, v, rfl, -, hr⟩ := exists_split_of_exec_mapM h hb
  exact ⟨a, by simp, t, v, hr⟩

theorem map_eq_of_exec_mapM {γ : Type} {f : α → Step σ β} {l : List α} {bs : List β} {s u : σ}
    (h : exec (l.mapM f) s = (.ok bs, u)) {k : α → γ} {m : β → γ}
    (hf : ∀ a ∈ l, ∀ b t v, exec (f a) t = (.ok b, v) → m b = k a) : bs.map m = l.map k := by
  induction l generalizing bs s with
  | nil =>
      rw [List.mapM_nil, exec_pure] at h
      cases h
      rfl
  | cons a l ih =>
      obtain ⟨b, t, cs, hb, hcs, rfl⟩ := exec_mapM_cons_eq_ok.1 h
      rw [List.map_cons, List.map_cons, hf a List.mem_cons_self b s t hb,
        ih hcs fun a' ha' => hf a' (List.mem_cons_of_mem a ha')]

theorem exists_ok_of_isOk {r : Except DesignError α} (h : r.isOk) : ∃ a, r = .ok a := by
  cases r with
  | ok a => exact ⟨a, rfl⟩
  | error e => cases h

/-- The states before and after a step are related, whether it fails or not. -/
def Keeps (R : σ → σ → Prop) (x : Step σ α) : Prop := ∀ s, R s (exec x s).2

namespace Keeps

variable {R : σ → σ → Prop} [IsPreorder σ R]

theorem pure (a : α) : Keeps R (Pure.pure a : Step σ α) := fun s => refl_of R s

theorem throw (e : DesignError) : Keeps R (MonadExcept.throw e : Step σ α) := fun s => refl_of R s

theorem bind {x : Step σ α} {f : α → Step σ β} (hx : Keeps R x) (hf : ∀ a, Keeps R (f a)) :
    Keeps R (x >>= f) := by
  intro s
  have h := hx s
  rw [exec_bind]
  rcases hr : exec x s with ⟨_ | a, t⟩ <;> rw [hr] at h
  · exact h
  · exact trans_of R h (hf a t)

theorem mapM {f : α → Step σ β} {l : List α} (hf : ∀ a ∈ l, Keeps R (f a)) :
    Keeps R (l.mapM f) := by
  induction l with
  | nil => exact pure []
  | cons a l ih =>
      rw [List.mapM_cons]
      exact bind (hf a (by simp)) fun b =>
        bind (ih fun a' ha' => hf a' (by simp [ha'])) fun bs => pure (b :: bs)

theorem forM {f : α → Step σ PUnit} {l : List α} (hf : ∀ a ∈ l, Keeps R (f a)) :
    Keeps R (l.forM f) := by
  induction l with
  | nil => exact pure PUnit.unit
  | cons a l ih => exact bind (hf a (by simp)) fun _ => ih fun a' ha' => hf a' (by simp [ha'])

theorem rest_of_bind (x : Step σ α) {f : α → Step σ β} (s : σ) (hf : ∀ a, Keeps R (f a)) :
    R (exec x s).2 (exec (x >>= f) s).2 := by
  rw [Step.exec_bind]
  rcases exec x s with ⟨_ | a, t⟩
  · exact refl_of R t
  · exact hf a t

theorem rest_of_mapM {f : α → Step σ β} {before after : List α} {a : α} {bs : List β} {s t : σ}
    (h : exec (before.mapM f) s = (.ok bs, t)) (hf : ∀ b ∈ after, Keeps R (f b)) :
    R (exec (f a) t).2 (exec ((before ++ a :: after).mapM f) s).2 := by
  rw [List.mapM_append, Step.exec_bind, h, List.mapM_cons]
  refine trans_of R (rest_of_bind (f a) t ?_) (rest_of_bind _ t fun bs' => pure _)
  exact fun b => bind (mapM hf) fun bs' => pure _

theorem rest_of_forM {f : α → Step σ PUnit} {before after : List α} {a : α} {s t : σ}
    (h : exec (before.forM f) s = (.ok PUnit.unit, t)) (hf : ∀ b ∈ after, Keeps R (f b)) :
    R (exec (f a) t).2 (exec ((before ++ a :: after).forM f) s).2 := by
  have happend : (before ++ a :: after).forM f = before.forM f >>= fun _ => (a :: after).forM f :=
    List.forM_append
  rw [happend, Step.exec_bind, h]
  exact rest_of_bind (f a) t fun _ => forM hf

end Keeps

end Step

end DesignCompiler

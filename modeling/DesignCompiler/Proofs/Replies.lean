import DesignCompiler.Proofs.Answers

namespace DesignCompiler

abbrev Reply := (q : Question) × Except FetchError q.Answer

namespace Conversation

variable {α β : Type}

/-- With these replies, in this order, the conversation ends with a result. -/
inductive Hears : Conversation α → List Reply → α → Prop
  | done (a : α) : Hears (.done a) [] a
  | ask {q : Question} {next : Except FetchError q.Answer → Conversation α} {log : List Reply} {a : α}
      (reply : Except FetchError q.Answer) (h : Hears (next reply) log a) :
      Hears (.ask q next) (⟨q, reply⟩ :: log) a

theorem Hears.of_bind {c : Conversation α} {f : α → Conversation β} {log : List Reply} {b : β}
    (h : (c >>= f).Hears log b) :
    ∃ before after a, log = before ++ after ∧ c.Hears before a ∧ (f a).Hears after b := by
  induction c generalizing log with
  | done a => exact ⟨[], log, a, rfl, .done a, h⟩
  | ask q next ih =>
      cases h with
      | @ask _ _ log _ reply h =>
          obtain ⟨before, after, a, rfl, ha, hb⟩ := ih _ h
          exact ⟨_ :: before, after, a, rfl, .ask reply ha, hb⟩

theorem Hears.of_pure {a b : α} {log : List Reply} (h : (pure a : Conversation α).Hears log b) :
    b = a ∧ log = [] := by
  cases h
  exact ⟨rfl, rfl⟩

theorem Hears.of_pose {q : Question} {log : List Reply} {reply : Except FetchError q.Answer}
    (h : (pose q).Hears log reply) : log = [⟨q, reply⟩] := by
  cases h with
  | ask reply h =>
      cases h
      rfl

end Conversation

def asked (log : List Reply) : List Question := log.map Sigma.fst

theorem Conversation.exists_hears_run {α : Type} (source : Source) (c : Conversation α) :
    ∃ log, asked log = (c.run source).1 ∧ c.Hears log (c.run source).2 := by
  induction c with
  | done a => exact ⟨[], rfl, .done a⟩
  | ask q next ih =>
      obtain ⟨log, hasked, h⟩ := ih (source q)
      exact ⟨⟨q, source q⟩ :: log, congrArg (q :: ·) hasked, .ask (source q) h⟩

open Conversation

section Errors

variable {ε α β : Type}

theorem hears_bind {x : ExceptT ε Conversation α} {f : α → ExceptT ε Conversation β}
    {log : List Reply} {result : Except ε β} (h : (x >>= f).run.Hears log result) :
    (∃ e, x.run.Hears log (.error e) ∧ result = .error e) ∨
      ∃ before after a, log = before ++ after ∧ x.run.Hears before (.ok a) ∧
        (f a).run.Hears after result := by
  rw [ExceptT.run_bind] at h
  obtain ⟨before, after, e | a, rfl, hx, hf⟩ := Hears.of_bind h
  · obtain ⟨rfl, rfl⟩ := Hears.of_pure hf
    rw [List.append_nil]
    exact .inl ⟨e, hx, rfl⟩
  · exact .inr ⟨before, after, a, rfl, hx, hf⟩

theorem hears_lift_bind {c : Conversation α} {f : α → ExceptT ε Conversation β} {log : List Reply}
    {result : Except ε β} (h : (ExceptT.lift c >>= f).run.Hears log result) :
    ∃ before after a, log = before ++ after ∧ c.Hears before a ∧ (f a).run.Hears after result := by
  rcases hears_bind h with ⟨e, he, -⟩ | ⟨before, after, a, rfl, ha, hf⟩
  · obtain ⟨_, _, a, -, -, h⟩ := Hears.of_bind he
    obtain ⟨h, -⟩ := Hears.of_pure h
    cases h
  · obtain ⟨before, _, a', rfl, ha, h⟩ := Hears.of_bind ha
    obtain ⟨heq, rfl⟩ := Hears.of_pure h
    cases heq
    rw [List.append_nil]
    exact ⟨before, after, a, rfl, ha, hf⟩

theorem hears_liftExcept_bind {r : Except ε α} {f : α → ExceptT ε Conversation β} {log : List Reply}
    {result : Except ε β} (h : (liftM r >>= f : ExceptT ε Conversation β).run.Hears log result) :
    (∃ e, r = .error e ∧ result = .error e ∧ log = []) ∨
      ∃ a, r = .ok a ∧ (f a).run.Hears log result := by
  rcases hears_bind h with ⟨e, he, rfl⟩ | ⟨before, after, a, rfl, ha, hf⟩
  · obtain ⟨hr, rfl⟩ := Hears.of_pure he
    exact .inl ⟨e, hr.symm, rfl, rfl⟩
  · obtain ⟨hr, rfl⟩ := Hears.of_pure ha
    exact .inr ⟨a, hr.symm, hf⟩

theorem hears_ask_bind {q : Question} {f : q.Answer → Asking β} {log : List Reply}
    {result : Except FetchError β} (h : (q.ask >>= f).run.Hears log result) :
    (∃ e, log = [⟨q, .error e⟩] ∧ result = .error e) ∨
      ∃ after answer, log = ⟨q, .ok answer⟩ :: after ∧ (f answer).run.Hears after result := by
  rcases hears_bind h with ⟨e, he, rfl⟩ | ⟨before, after, a, rfl, ha, hf⟩
  · exact .inl ⟨e, he.of_pose, rfl⟩
  · rw [Hears.of_pose ha]
    exact .inr ⟨after, a, rfl, hf⟩

end Errors

end DesignCompiler

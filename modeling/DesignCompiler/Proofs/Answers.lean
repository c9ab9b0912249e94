import DesignCompiler.Output.Compile
import DesignCompiler.Proofs.Tables

namespace DesignCompiler

abbrev Exchange := (q : Question) × q.Answer

namespace Conversation

variable {α β : Type}

theorem bind_pure_right (c : Conversation α) : c.bind .done = c := by
  induction c with
  | done a => rfl
  | ask q next ih => exact congrArg (Conversation.ask q) (funext ih)

theorem bind_assoc {γ : Type} (c : Conversation α) (f : α → Conversation β) (g : β → Conversation γ) :
    (c.bind f).bind g = c.bind fun a => (f a).bind g := by
  induction c with
  | done a => rfl
  | ask q next ih => exact congrArg (Conversation.ask q) (funext ih)

instance : LawfulMonad Conversation :=
  LawfulMonad.mk' _ bind_pure_right (fun _ _ => rfl) bind_assoc

/-- All that is asked is answered, in this order, and the conversation ends with a result. -/
inductive Answered : Conversation α → List Exchange → α → Prop
  | done (a : α) : Answered (.done a) [] a
  | ask {q : Question} {next : Except FetchError q.Answer → Conversation α} {log : List Exchange} {a : α}
      (answer : q.Answer) (h : Answered (next (.ok answer)) log a) :
      Answered (.ask q next) (⟨q, answer⟩ :: log) a

theorem Answered.of_bind {c : Conversation α} {f : α → Conversation β} {log : List Exchange} {b : β}
    (h : (c >>= f).Answered log b) :
    ∃ before after a, log = before ++ after ∧ c.Answered before a ∧ (f a).Answered after b := by
  induction c generalizing log with
  | done a => exact ⟨[], log, a, rfl, .done a, h⟩
  | ask q next ih =>
      cases h with
      | @ask _ _ log _ answer h =>
          obtain ⟨before, after, a, rfl, ha, hb⟩ := ih _ h
          exact ⟨_ :: before, after, a, rfl, .ask answer ha, hb⟩

theorem Answered.of_pure {a b : α} {log : List Exchange} (h : (pure a : Conversation α).Answered log b) :
    b = a ∧ log = [] := by
  cases h
  exact ⟨rfl, rfl⟩

theorem Answered.of_map {f : α → β} {c : Conversation α} {log : List Exchange} {b : β}
    (h : (f <$> c).Answered log b) : ∃ a, c.Answered log a ∧ b = f a := by
  rw [map_eq_pure_bind] at h
  obtain ⟨before, after, a, rfl, ha, hb⟩ := h.of_bind
  obtain ⟨rfl, rfl⟩ := Answered.of_pure hb
  exact ⟨a, by rwa [List.append_nil], rfl⟩

theorem exists_answered (answer : (q : Question) → q.Answer) (c : Conversation α) :
    ∃ log, c.Answered log (c.run fun q => .ok (answer q)).2 := by
  induction c with
  | done a => exact ⟨[], .done a⟩
  | ask q next ih =>
      obtain ⟨log, h⟩ := ih (.ok (answer q))
      exact ⟨_, .ask (answer q) h⟩

end Conversation

open Conversation

section Gives

variable {ε α β : Type}

/-- If all is answered, the conversation does not fail, and its result fits the answers. -/
def Gives (P : List Exchange → α → Prop) (x : ExceptT ε Conversation α) : Prop :=
  ∀ log result, x.run.Answered log result → ∃ a, result = .ok a ∧ P log a

variable {P : List Exchange → α → Prop} {R : List Exchange → β → Prop}

theorem Gives.pure {a : α} (h : P [] a) : Gives P (Pure.pure a : ExceptT ε Conversation α) := by
  intro log result hr
  obtain ⟨rfl, rfl⟩ := Answered.of_pure hr
  exact ⟨a, rfl, h⟩

theorem answered_bind {x : ExceptT ε Conversation α} {f : α → ExceptT ε Conversation β}
    {log : List Exchange} {result : Except ε β} (h : (x >>= f).run.Answered log result) :
    (∃ e, x.run.Answered log (.error e) ∧ result = .error e) ∨
      ∃ before after a, log = before ++ after ∧ x.run.Answered before (.ok a) ∧
        (f a).run.Answered after result := by
  rw [ExceptT.run_bind] at h
  obtain ⟨before, after, e | a, rfl, hx, hf⟩ := Answered.of_bind h
  · obtain ⟨rfl, rfl⟩ := Answered.of_pure hf
    rw [List.append_nil]
    exact .inl ⟨e, hx, rfl⟩
  · exact .inr ⟨before, after, a, rfl, hx, hf⟩

theorem Gives.bind {x : ExceptT ε Conversation α} {f : α → ExceptT ε Conversation β} (hx : Gives P x)
    (hf : ∀ log a, P log a → Gives (fun log' => R (log ++ log')) (f a)) : Gives R (x >>= f) := by
  intro log result h
  rcases answered_bind h with ⟨e, he, -⟩ | ⟨before, after, a, rfl, ha, hfa⟩
  · obtain ⟨a, heq, -⟩ := hx _ _ he
    cases heq
  · obtain ⟨a', heq, hP⟩ := hx _ _ ha
    cases heq
    exact hf before a hP after result hfa

theorem gives_ask (q : Question) : Gives (fun log a => log = [⟨q, a⟩]) q.ask := by
  intro log result h
  cases h with
  | ask answer h =>
      cases h
      exact ⟨answer, rfl, rfl⟩

theorem Gives.mono {R : List Exchange → α → Prop} {x : ExceptT ε Conversation α} (hx : Gives P x)
    (h : ∀ log a, P log a → R log a) : Gives R x := by
  intro log result hr
  obtain ⟨a, ha, hP⟩ := hx log result hr
  exact ⟨a, ha, h log a hP⟩

theorem gives_lift {c : Conversation α} (h : ∀ log a, c.Answered log a → P log a) :
    Gives P (ExceptT.lift c : ExceptT ε Conversation α) := by
  intro log result hr
  obtain ⟨before, after, a, rfl, ha, hr⟩ := Answered.of_bind hr
  obtain ⟨rfl, rfl⟩ := Answered.of_pure hr
  rw [List.append_nil]
  exact ⟨a, rfl, h before a ha⟩

theorem gives_liftExcept {r : Except ε α} {a : α} (hr : r = .ok a) (h : P [] a) :
    Gives P (liftM r : ExceptT ε Conversation α) := by
  intro log result hresult
  obtain ⟨rfl, rfl⟩ := Answered.of_pure hresult
  exact ⟨a, hr, h⟩

theorem Gives.toRun {x : Asking α} (hx : Gives P x) : Gives P x.toRun := by
  intro log result h
  obtain ⟨r, hr, rfl⟩ := Answered.of_map h
  obtain ⟨a, rfl, ha⟩ := hx log r hr
  exact ⟨a, rfl, ha⟩

end Gives

namespace Assets

def Fetches (log : List Exchange) (fetched : Table Fetched) : Prop :=
  ∀ e ∈ fetched, (⟨.fetch e.2.url, e.2.body⟩ : Exchange) ∈ log

def fetches (bodies : Table Resource) : List Exchange := bodies.map fun e => ⟨.fetch e.1, e.2⟩

theorem mem_fetches {bodies : Table Resource} {e : String × Resource} (h : e ∈ bodies) :
    (⟨.fetch e.1, e.2⟩ : Exchange) ∈ fetches bodies :=
  List.mem_map_of_mem (f := fun e : String × Resource => (⟨.fetch e.1, e.2⟩ : Exchange)) h

theorem answered_mapM_pose {urls : List String} {log : List Exchange}
    {answers : List (Except FetchError Resource)}
    (h : Answered (urls.mapM fun url => pose (.fetch url)) log answers) :
    ∃ bodies, answers = bodies.map .ok ∧ bodies.length = urls.length ∧ log = fetches (urls.zip bodies) := by
  induction urls generalizing log answers with
  | nil =>
      obtain ⟨rfl, rfl⟩ := Answered.of_pure h
      exact ⟨[], rfl, rfl, rfl⟩
  | cons url urls ih =>
      rw [List.mapM_cons] at h
      obtain ⟨before, after, a, rfl, ha, h⟩ := h.of_bind
      cases ha with
      | ask body hbody =>
        cases hbody
        obtain ⟨before', after', rest, rfl, hrest, h⟩ := h.of_bind
        obtain ⟨rfl, rfl⟩ := Answered.of_pure h
        obtain ⟨bodies, rfl, hlength, rfl⟩ := ih hrest
        exact ⟨body :: bodies, rfl, congrArg (· + 1) hlength, by simp [fetches]⟩

theorem mapM_id_map_ok (bodies : List Resource) :
    (bodies.map .ok).mapM (id : Except FetchError Resource → _) = .ok bodies := by
  induction bodies with
  | nil => rfl
  | cons body bodies ih =>
      rw [List.map_cons, List.mapM_cons, ih]
      rfl

theorem gives_fetchAll (urls : List String) :
    Gives (fun log bodies => log = fetches bodies ∧ bodies.keys = urls.eraseDups) (fetchAll urls) := by
  refine Gives.bind (gives_lift fun log answers h => answered_mapM_pose h) ?_
  rintro _ answers ⟨bodies, rfl, hlength, rfl⟩
  refine Gives.bind (P := fun log' b => log' = [] ∧ b = bodies) ?_ ?_
  · exact gives_liftExcept (mapM_id_map_ok bodies) ⟨rfl, rfl⟩
  · rintro _ _ ⟨rfl, rfl⟩
    refine Gives.pure ⟨by simp, ?_⟩
    exact List.map_fst_zip (Nat.le_of_eq hlength.symm)

theorem gives_fetchEach_eq (urls : Table String) :
    Gives (fun log fetched => ∃ bodies, log = fetches bodies ∧ bodies.keys = urls.values.eraseDups ∧
      fetched = urls.filterMap fun e => (bodies.lookup e.2).map fun body => (e.1, ⟨e.2, body⟩)) (fetchEach urls) := by
  refine Gives.bind (gives_fetchAll _) ?_
  rintro _ bodies ⟨rfl, hkeys⟩
  exact Gives.pure ⟨bodies, by simp, hkeys, rfl⟩

theorem gives_fetchEach (urls : Table String) : Gives Fetches (fetchEach urls) := by
  refine (gives_fetchEach_eq urls).mono ?_
  rintro _ _ ⟨bodies, rfl, -, rfl⟩ e he
  obtain ⟨⟨key, url⟩, -, he⟩ := List.mem_filterMap.1 he
  obtain ⟨body, hbody, rfl⟩ := Option.map_eq_some_iff.1 he
  exact mem_fetches (Table.mem_of_lookup hbody)

theorem Fetches.nil (log : List Exchange) : Fetches log [] := fun _ he => nomatch he

theorem Fetches.append {log : List Exchange} {fetched : Table Fetched} (h : Fetches log fetched)
    (before : List Exchange) : Fetches (before ++ log) fetched :=
  fun e he => List.mem_append_right before (h e he)

theorem answered_pose {q : Question} {log : List Exchange} {a : Except FetchError q.Answer}
    (h : (pose q).Answered log a) : ∃ answer, a = .ok answer ∧ log = [⟨q, answer⟩] := by
  cases h with
  | ask answer h =>
      cases h
      exact ⟨answer, rfl, rfl⟩

theorem gives_fetchVectors (ids : List String) : Gives Fetches (fetchVectors ids) := by
  unfold fetchVectors
  split
  · exact Gives.pure (.nil _)
  · refine Gives.bind (gives_lift fun log a h => answered_pose h) ?_
    rintro before _ ⟨absolute, rfl, -⟩
    refine Gives.bind (gives_lift fun log a h => answered_pose h) ?_
    rintro before' _ ⟨relative, rfl, -⟩
    refine Gives.bind (gives_liftExcept (P := fun _ _ => True) rfl trivial) fun log a _ => ?_
    refine Gives.bind (gives_liftExcept (P := fun _ _ => True) rfl trivial) fun log' b _ => ?_
    exact (gives_fetchEach _).mono fun log'' fetched h =>
      (((h.append log').append log).append before').append before

theorem gives_fetchImages (refs : List String) : Gives Fetches (fetchImages refs) := by
  unfold fetchImages
  split
  · exact Gives.pure (.nil _)
  · exact Gives.bind (gives_ask _) fun log fills _ =>
      (gives_fetchEach _).mono fun log' fetched h => h.append log

theorem gives_fetchMasks (o : Options) (ids : List String) : Gives Fetches (fetchMasks o ids) := by
  unfold fetchMasks
  split
  · exact Gives.pure (.nil _)
  · exact Gives.bind (gives_ask _) fun log fills _ =>
      (gives_fetchEach _).mono fun log' fetched h => h.append log

theorem gives_fetchBoth (vectorIds imageRefs : List String) :
    Gives (fun log (p : Table Fetched × Table Fetched) => Fetches log p.1)
      (do return (← fetchVectors vectorIds, ← fetchImages imageRefs)) := by
  refine Gives.bind (gives_fetchVectors vectorIds) fun log vectors hvectors => ?_
  refine Gives.bind (gives_fetchImages imageRefs) fun log' images _ => Gives.pure ?_
  intro e he
  exact List.mem_append_left _ (hvectors e he)

theorem exists_of_mapM_eq_error {ε α β : Type} {f : α → Except ε β} {l : List α} {e : ε}
    (h : l.mapM f = .error e) : ∃ a ∈ l, f a = .error e := by
  induction l with
  | nil => cases h
  | cons a l ih =>
      rw [List.mapM_cons] at h
      cases ha : f a with
      | error e' =>
          rw [ha] at h
          cases h
          exact ⟨a, List.mem_cons_self, ha⟩
      | ok b =>
          rw [ha] at h
          cases hl : l.mapM f with
          | error e' =>
              rw [hl] at h
              cases h
              obtain ⟨a', hmem, ha'⟩ := ih hl
              exact ⟨a', List.mem_cons_of_mem a hmem, ha'⟩
          | ok bs =>
              rw [hl] at h
              cases h

theorem Resolver.maskReference?_eq_error {r : Resolver} {exported : Table Fetched} {markup : Table String}
    {id : String} {m : MarkupError} (h : r.maskReference? exported markup id = .error m) :
    m = .closedTwice id ∧ ∃ raw, (id, raw) ∈ markup ∧
      r.rasterize raw r.options.imageScale = .error .closedTwice := by
  unfold maskReference? at h
  split at h
  · cases h
  · cases h
  · next raw _ hlookup =>
    split at h
    · cases h
    · next hclosed =>
      cases h
      exact ⟨rfl, raw, Table.mem_of_lookup hlookup, hclosed⟩
    · cases h

def Reads (log : List Exchange) (markup : String) : Prop :=
  ∃ f : Fetched, (⟨.fetch f.url, f.body⟩ : Exchange) ∈ log ∧ f.markup = markup

theorem Reads.append {log : List Exchange} {markup : String} (h : Reads log markup)
    (before : List Exchange) : Reads (before ++ log) markup := by
  obtain ⟨f, hf, hmarkup⟩ := h
  exact ⟨f, List.mem_append_right before hf, hmarkup⟩

theorem Resolver.answered_resolve {r : Resolver} {request : Request} {log : List Exchange}
    {result : Except DesignError Resources} {p : Progress}
    (h : (r.resolve request {}).Answered log (result, p)) :
    (∃ resources, result = .ok resources ∧
      ∀ id markup, resources.vectors.lookup id = some markup → Reads log markup) ∨
    ∃ id markup, result = .error (.markup (.closedTwice id)) ∧ Reads log markup ∧
      r.rasterize markup r.options.imageScale = .error .closedTwice := by
  rw [resolve] at h
  dsimp only at h
  obtain ⟨before, after, both, rfl, hboth, h⟩ := h.of_bind
  obtain ⟨⟨vectors, images⟩, rfl, hvectors⟩ := gives_fetchBoth _ _ _ _ hboth
  dsimp only at h
  obtain ⟨middle, after, masks, rfl, hmasks, h⟩ := h.of_bind
  obtain ⟨exported, rfl, -⟩ := gives_fetchMasks _ _ _ _ hmasks
  dsimp only at h
  have hreads : ∀ id markup, (id, markup) ∈ vectors.map (fun e => (e.1, e.2.markup)) →
      Reads (before ++ (middle ++ after)) markup := by
    intro id markup hmem
    obtain ⟨e, he, heq⟩ := List.mem_map.1 hmem
    cases heq
    exact ⟨e.2, List.mem_append_left _ (hvectors e he), rfl⟩
  split at h
  · next m hmask =>
    obtain ⟨heq, rfl⟩ := Answered.of_pure h
    cases heq
    obtain ⟨id, -, hid⟩ := exists_of_mapM_eq_error hmask
    obtain ⟨rfl, raw, hraw, hclosed⟩ := maskReference?_eq_error hid
    rcases Table.mem_of_mem_putAll hraw with hraw | hraw
    · exact .inr ⟨id, raw, rfl, hreads id raw hraw, hclosed⟩
    · cases hraw
  · next references hmask =>
    obtain ⟨heq, rfl⟩ := Answered.of_pure h
    cases heq
    exact .inl ⟨_, rfl, fun id markup hmarkup => hreads id markup (Table.mem_of_lookup hmarkup)⟩

end Assets

end DesignCompiler

import Mathlib.Data.List.Forall2
import DesignCompiler.Proofs.Batches

namespace DesignCompiler.Assets

open Conversation

structure Call where
  request : Request
  before : Progress
  log : List Reply

variable {r : Resolver} {o : Options}

/-- Calls that start where the one before them ended, be it with an error. -/
inductive Resolver.Calls (r : Resolver) : Progress → List Call → Prop
  | nil (p : Progress) : Calls r p []
  | cons {p p' : Progress} {request : Request} {log : List Reply} {result : Except DesignError Resources}
      {calls : List Call} (h : (r.resolve request p).Hears log (result, p')) (rest : Calls r p' calls) :
      Calls r p (⟨request, p, log⟩ :: calls)

/-- A call asks in phases for the keys that no call has claimed before it. A phase asks nothing, or it names its keys
and then fetches URLs, each of them once. -/
structure Call.Orderly (o : Options) (c : Call) (p : Phases) : Prop where
  asked_eq : asked c.log = p.all
  fits : p.Fits o (c.request.fresh c.before.ledger)
  exports : ∀ e, .exports e ∈ p.all → e.ids ≠ [] ∧ e.ids.Nodup
  fills_once : p.all.count .fills ≤ 1
  fills_fresh : .fills ∈ p.all → ∃ ref ∈ c.request.images, ("image", ref) ∉ c.before.ledger
  nodup_fetched : (p.vectors.filterMap fetchedUrl?).Nodup ∧ (p.images.filterMap fetchedUrl?).Nodup ∧
    (p.masks.filterMap fetchedUrl?).Nodup

/-- Each call is orderly, and over all calls an id is in one question of a kind at most, and there once. -/
structure AskedOnce (o : Options) (calls : List Call) (phases : List Phases) : Prop where
  orderly : List.Forall₂ (Call.Orderly o) calls phases
  nodup_vectors : ∀ absolute, (phases.flatMap fun p => p.vectors.flatMap (svgIds absolute)).Nodup
  nodup_masks : (phases.flatMap fun p => p.masks.flatMap (rasterIds o)).Nodup

theorem exists_orderly {request : Request} {p p' : Progress} {log : List Reply}
    {result : Except DesignError Resources} (h : (r.resolve request p).Hears log (result, p')) :
    p.ledger ⊆ p'.ledger ∧ ∃ phases : Phases, Call.Orderly r.options ⟨request, p, log⟩ phases ∧
      (∀ absolute, Ledger.Claims "vector" p.ledger p'.ledger (phases.vectors.flatMap (svgIds absolute))) ∧
      Ledger.Claims "mask" p.ledger p'.ledger (phases.masks.flatMap (rasterIds r.options)) := by
  obtain ⟨hledger, phases, hall, hfits⟩ := (r.outcome_of_hears h).exists_phases
  have hvectors : Ledger.Claims "vector" p.ledger p'.ledger (request.fresh p.ledger).vectors :=
    Ledger.claims_fresh fun key hkey => by simp [hledger, Request.entries, Request.fresh, hkey]
  have hmasks : Ledger.Claims "mask" p.ledger p'.ledger (request.fresh p.ledger).masks :=
    Ledger.claims_fresh fun key hkey => by simp [hledger, Request.entries, Request.fresh, hkey]
  refine ⟨?_, phases, ?_, fun absolute => hvectors.sublist (hfits.sublist_svgIds absolute),
    hmasks.sublist hfits.sublist_rasterIds⟩
  · rw [hledger]
    exact List.subset_append_left ..
  refine ⟨hall.symm, hfits, ?_, hfits.count_fills_le, ?_, hfits.nodup_fetched⟩
  · intro e he
    obtain ⟨hids, heq | heq⟩ := hfits.ids_of_exports he
    · exact ⟨hids, heq ▸ hvectors.nodup⟩
    · exact ⟨hids, heq ▸ hmasks.nodup⟩
  · intro hfills
    obtain ⟨ref, href⟩ := List.exists_mem_of_ne_nil _ (hfits.images_of_fills hfills)
    exact ⟨ref, mem_fresh.1 href⟩

theorem Resolver.Calls.exists_phases {p : Progress} {calls : List Call} (h : r.Calls p calls) :
    ∃ (last : Ledger) (phases : List Phases), p.ledger ⊆ last ∧
      List.Forall₂ (Call.Orderly r.options) calls phases ∧
      (∀ absolute, Ledger.Claims "vector" p.ledger last
        (phases.flatMap fun p => p.vectors.flatMap (svgIds absolute))) ∧
      Ledger.Claims "mask" p.ledger last (phases.flatMap fun p => p.masks.flatMap (rasterIds r.options)) := by
  induction h with
  | nil p => exact ⟨p.ledger, [], fun _ h => h, .nil, fun _ => .nil .., .nil ..⟩
  | cons h _ ih =>
      obtain ⟨hsub, first, horderly, hvectors, hmasks⟩ := exists_orderly h
      obtain ⟨last, phases, hsub', horderly', hvectors', hmasks'⟩ := ih
      refine ⟨last, first :: phases, fun _ h => hsub' (hsub h), .cons horderly horderly', ?_, ?_⟩
      · intro absolute
        exact (hvectors absolute).append (hvectors' absolute) hsub hsub'
      · exact hmasks.append hmasks' hsub hsub'

theorem rightUnique_orderly (o : Options) : Relator.RightUnique (Call.Orderly o) :=
  fun _ _ _ hp hq => hp.fits.eq_of_all_eq hq.fits (hp.asked_eq.symm.trans hq.asked_eq)

/-- Whatever is replied to a run of calls, no key is asked for twice, and no URL twice in a phase. What is asked leaves
one way only to tell the phases of the calls. -/
theorem exists_askedOnce {calls : List Call} (h : r.Calls {} calls) :
    ∃! phases, AskedOnce r.options calls phases := by
  obtain ⟨last, phases, -, horderly, hvectors, hmasks⟩ := h.exists_phases
  have honce : AskedOnce r.options calls phases :=
    ⟨horderly, fun absolute => (hvectors absolute).nodup, hmasks.nodup⟩
  exact ⟨phases, honce, fun _ hother => (rightUnique_orderly _).forall₂ hother.orderly horderly⟩

def pictureless : Source
  | .canvas => .ok { attrs := { id := "0:0", name := "Page", kind := .canvas } }
  | .descriptions _ => .ok []
  | .exports e => .ok (e.ids.map fun id => (id, some "picture"))
  | .fills => .ok [("fill", "picture")]
  | .fetch url => .error (.transport url "refused")

def fileResolver : Resolver where
  options := { imageMode := .file }
  rasterize := Picture.rasterize

def doubledRequest : Request where
  vectors := ["1", "2", "1", "2"]
  images := ["fill", "fill"]
  masks := ["1", "1"]

/-- Two calls for the same keys, the first of which fails before its masks are asked for. -/
theorem askedOnce_doubledRequest :
    ∃ calls, fileResolver.Calls {} calls ∧ calls.map Call.request = [doubledRequest, doubledRequest] ∧
      (calls.map fun c => asked c.log) =
        [[.exports (.svg ["1", "2"] true), .exports (.svg ["1", "2"] false), .fetch "picture"], []] ∧
      ∃! phases, AskedOnce fileResolver.options calls phases := by
  obtain ⟨log, hlog, h⟩ := exists_hears_run pictureless (fileResolver.resolve doubledRequest {})
  obtain ⟨log', hlog', h'⟩ := exists_hears_run pictureless
    (fileResolver.resolve doubledRequest ((fileResolver.resolve doubledRequest {}).run pictureless).2.2)
  have hcalls : fileResolver.Calls {} [⟨doubledRequest, _, log⟩, ⟨doubledRequest, _, log'⟩] :=
    .cons h (.cons h' (.nil _))
  refine ⟨_, hcalls, rfl, ?_, exists_askedOnce hcalls⟩
  simp only [List.map_cons, List.map_nil, hlog, hlog']
  decide

end DesignCompiler.Assets

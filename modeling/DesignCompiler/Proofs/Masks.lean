import DesignCompiler.Proofs.Calls
import DesignCompiler.Proofs.Links

namespace DesignCompiler

open Relation

namespace Forest

variable {f : Forest} {i c m p : Nat}

def HasChild (f : Forest) (i c : Nat) : Prop := c ∈ f.children i

def Below (f : Forest) : Nat → Nat → Prop := TransGen f.HasChild

/-- A child that is a group, whose children count as children of the node. -/
def SeesThrough (f : Forest) (i c : Nat) : Prop :=
  f.HasChild i c ∧ ∃ n, f.get? c = some n ∧ n.kind.isGroupFamily

/-- No group, and no mask that a sibling takes. -/
def IsPlain (f : Forest) (c : Nat) : Prop :=
  ∃ n, f.get? c = some n ∧ n.kind.isGroupFamily = false ∧ n.masked = none

theorem IsPlain.not_consumed (h : f.IsPlain c) : f.isConsumedMask c = false := by
  obtain ⟨n, hn, -, hmasked⟩ := h
  rw [NodeTree.isConsumedMask, hn, Option.any_some, hmasked]
  rfl

theorem mem_flattened_iff :
    c ∈ f.flattened i ↔
      ∃ d, (f.SeesThrough i d ∧ c ∈ f.flattened d) ∨ (f.HasChild i d ∧ c = d ∧ f.IsPlain d) := by
  rw [flattened, List.mem_flatMap]
  constructor
  · rintro ⟨⟨d, hd⟩, -, hc⟩
    dsimp only at hc
    split at hc
    · cases hc
    · next n hn =>
      split at hc
      · next hg => exact ⟨d, .inl ⟨⟨hd, n, hn, hg⟩, hc⟩⟩
      · next hg =>
        split at hc
        · cases hc
        · next hm =>
          exact ⟨d, .inr ⟨hd, List.mem_singleton.1 hc, n, hn, Bool.eq_false_iff.2 hg,
            Option.not_isSome_iff_eq_none.1 hm⟩⟩
  · rintro ⟨d, ⟨⟨hd, n, hn, hg⟩, hc⟩ | ⟨hd, rfl, n, hn, hg, hm⟩⟩
    · refine ⟨⟨d, hd⟩, List.mem_attach .., ?_⟩
      dsimp only
      rw [hn]
      simpa [hg] using hc
    · refine ⟨⟨c, hd⟩, List.mem_attach .., ?_⟩
      dsimp only
      rw [hn]
      simp [hg, hm]

/-- A node draws the plain children of itself and of all groups that it sees through. -/
theorem mem_flattened_iff_exists :
    c ∈ f.flattened i ↔
      ∃ p, ReflTransGen f.SeesThrough i p ∧ f.HasChild p c ∧ f.IsPlain c := by
  constructor
  · intro h
    induction i using flattened.induct f with
    | case1 i ih =>
        obtain ⟨d, ⟨hd, hc⟩ | ⟨hd, rfl, hc⟩⟩ := mem_flattened_iff.1 h
        · obtain ⟨n, hn, hg⟩ := hd.2
          obtain ⟨p, hp, hcp⟩ := ih d hd.1 hc
          exact ⟨p, .head hd hp, hcp⟩
        · exact ⟨i, .refl, hd, hc⟩
  · rintro ⟨p, hp, hc, hplain⟩
    induction hp using ReflTransGen.head_induction_on with
    | refl => exact mem_flattened_iff.2 ⟨c, .inr ⟨hc, rfl, hplain⟩⟩
    | head hd _ ih => exact mem_flattened_iff.2 ⟨_, .inl ⟨hd, ih⟩⟩

theorem mem_flattened_of_seesThrough (h : ReflTransGen f.SeesThrough i p) (hc : c ∈ f.flattened p) :
    c ∈ f.flattened i := by
  obtain ⟨q, hq, hcq⟩ := mem_flattened_iff_exists.1 hc
  exact mem_flattened_iff_exists.2 ⟨q, h.trans hq, hcq⟩

theorem not_consumed_of_mem_flattened (h : c ∈ f.flattened i) : f.isConsumedMask c = false := by
  obtain ⟨p, -, -, hplain⟩ := mem_flattened_iff_exists.1 h
  exact hplain.not_consumed

theorem SeesThrough.reflTransGen_hasChild (h : ReflTransGen f.SeesThrough i p) :
    ReflTransGen f.HasChild i p :=
  ReflTransGen.mono (fun _ _ (hc : f.SeesThrough _ _) => hc.1) _ _ h

theorem below_of_mem_flattened (h : c ∈ f.flattened i) : f.Below i c := by
  obtain ⟨p, hp, hc, -⟩ := mem_flattened_iff_exists.1 h
  exact .tail' (SeesThrough.reflTransGen_hasChild hp) hc

theorem Below.lt (h : f.Below i c) : i < c := by
  induction h with
  | single hc => exact f.ordered _ _ hc
  | tail _ hc ih => exact Nat.lt_trans ih (f.ordered _ _ hc)

theorem above_of_seesThrough (hl : f.Linked) (h : ReflTransGen f.SeesThrough i p)
    (hm : ReflTransGen f.HasChild m p) :
    ReflTransGen f.HasChild m i ∨
      TransGen f.SeesThrough i m ∧ ReflTransGen f.SeesThrough m p := by
  induction h with
  | refl => exact .inl hm
  | @tail q p hq hp ih =>
      rcases ReflTransGen.cases_tail hm with rfl | ⟨q', hq', hp'⟩
      · exact .inr ⟨.tail' hq hp, .refl⟩
      · -- Both are the parent of `p`.
        obtain rfl : q' = q := Option.some.inj ((hl q' p hp').symm.trans (hl q p hp.1))
        rcases ih hq' with h | ⟨h, h'⟩
        · exact .inl h
        · exact .inr ⟨h, h'.tail hp⟩

theorem above_of_mem_flattened (hl : f.Linked) (h : c ∈ f.flattened i) (hm : f.Below m c) :
    ReflTransGen f.HasChild m i ∨
      TransGen f.SeesThrough i m ∧ c ∈ f.flattened m := by
  obtain ⟨p, hp, hc, hplain⟩ := mem_flattened_iff_exists.1 h
  obtain ⟨q, hq, hcq⟩ := TransGen.tail'_iff.1 hm
  obtain rfl : q = p := Option.some.inj ((hl q c hcq).symm.trans (hl p c hc))
  rcases above_of_seesThrough hl hp hq with h | ⟨h, h'⟩
  · exact .inl h
  · exact .inr ⟨h, mem_flattened_iff_exists.2 ⟨q, h', hc, hplain⟩⟩

def Schedules (f : Forest) (i c : Nat) : Prop := ∃ t ∈ (f.buckets i).turns, t.node = c

theorem exists_mem_stack (previous : Option Nat) {entries : List ChildEntry} {e : ChildEntry}
    (h : e ∈ entries) : ∃ t ∈ Turn.stack previous entries, t.node = e.node := by
  induction entries generalizing previous with
  | nil => cases h
  | cons e' rest ih =>
      rcases List.mem_cons.1 h with rfl | h
      · exact ⟨_, List.mem_cons_self, rfl⟩
      · obtain ⟨t, ht, hn⟩ := ih (some e'.node) h
        exact ⟨t, List.mem_cons_of_mem _ ht, hn⟩

theorem exists_entry_of_mem_flattened (h : c ∈ f.flattened i) : ∃ e ∈ f.entries i, e.node = c := by
  obtain ⟨k, hk⟩ := List.getElem?_of_mem h
  exact ⟨⟨c, k⟩, List.mem_map_of_mem (List.mk_mem_zipIdx_iff_getElem?.2 hk), rfl⟩

theorem schedules_iff : f.Schedules i c ↔ c ∈ f.flattened i := by
  constructor
  · rintro ⟨t, ht, rfl⟩
    obtain ⟨e, he, hn⟩ := f.mem_entries_of_mem_turns ht
    exact hn ▸ f.node_mem_flattened_of_mem_entries he
  · intro h
    obtain ⟨e, he, rfl⟩ := exists_entry_of_mem_flattened h
    by_cases htop : f.verticalOf e.node = .top
    · have hmin : e ∈ (f.buckets i).min :=
        (List.mergeSort_perm ..).mem_iff.2 (List.mem_filter.2 ⟨he, decide_eq_true htop⟩)
      obtain ⟨t, ht, hn⟩ := exists_mem_stack none hmin
      exact ⟨t, List.mem_append_left _ (List.mem_append_left _ ht), hn⟩
    · by_cases hbottom : f.verticalOf e.node = .bottom
      · have hmax : e ∈ (f.buckets i).max :=
          (List.mergeSort_perm ..).mem_iff.2 (List.mem_filter.2 ⟨he, decide_eq_true hbottom⟩)
        obtain ⟨t, ht, hn⟩ := exists_mem_stack none hmax
        exact ⟨t, List.mem_append_right _ ht, hn⟩
      · have hcenter : e ∈ (f.buckets i).center :=
          List.mem_filter.2 ⟨he, decide_eq_true ⟨htop, hbottom⟩⟩
        exact ⟨.single e, List.mem_append_left _ (List.mem_append_right _
          (List.mem_map_of_mem hcenter)), rfl⟩

end Forest

variable {ctx : Context}

theorem Draw.Draws.schedules {d e : Draw} (h : d.Draws ctx e) :
    ctx.forest.Schedules d.node e.node := by
  cases h with
  | @child node rendered s u before after t drawn found entered turns earlier =>
      exact ⟨t, by simp [turns], rfl⟩

def Draw.Visits (ctx : Context) : Draw → Draw → Prop := ReflTransGen (Draw.Draws ctx)

/-- No node in a drawing schedules a mask that a sibling takes, or a node below one. -/
def Draw.SkipsMasks (ctx : Context) (root : Draw) : Prop :=
  ∀ d, root.Visits ctx d → ∀ c, ctx.forest.Schedules d.node c →
    ctx.forest.isConsumedMask c = false ∧
      ∀ m, ctx.forest.Below root.node m → ctx.forest.isConsumedMask m → ¬ctx.forest.Below m c

theorem Draw.Visits.reflTransGen_hasChild {root d : Draw} (h : root.Visits ctx d) :
    ReflTransGen ctx.forest.HasChild root.node d.node := by
  induction h with
  | refl => exact .refl
  | tail _ hd ih =>
      exact ih.trans (Forest.below_of_mem_flattened (Forest.schedules_iff.1 hd.schedules)).to_reflTransGen

/-- A mask of the component that is above a visited node, or is that node, is a group that another
visited node sees through. -/
theorem Draw.Visits.exists_seesThrough {root d : Draw} (hl : ctx.forest.Linked)
    (h : root.Visits ctx d) {m : Nat} (hr : ctx.forest.Below root.node m)
    (hm : ctx.forest.isConsumedMask m) (hd : ReflTransGen ctx.forest.HasChild m d.node) :
    ∃ e, root.Visits ctx e ∧ TransGen ctx.forest.SeesThrough e.node m ∧
      ∃ c, ctx.forest.Schedules m c := by
  induction h with
  | refl =>
      -- The root would be below itself.
      exact absurd (Forest.Below.lt (hr.trans_left hd)) (Nat.lt_irrefl _)
  | @tail d e hvisits he ih =>
      have hde := Forest.schedules_iff.1 he.schedules
      rcases reflTransGen_iff_eq_or_transGen.1 hd with heq | hbelow
      · rw [← heq, Forest.not_consumed_of_mem_flattened hde] at hm
        cases hm
      · rcases Forest.above_of_mem_flattened hl hde hbelow with habove | ⟨hthrough, hme⟩
        · exact ih habove
        · exact ⟨d, hvisits, hthrough, e.node, Forest.schedules_iff.2 hme⟩

/-- A drawing schedules no mask that a sibling takes. It schedules a node below such a mask only if the
mask is a group that a visited node sees through, so that masks are skipped just when no such group has
anything to draw. -/
theorem skipsMasks_iff {o : Options} {canvas : SceneNode}
    (hf : ctx.forest = (NormalizedScene.ofCanvas o canvas).forest) (root : Draw) :
    (∀ d, root.Visits ctx d → ∀ c, ctx.forest.Schedules d.node c →
        ctx.forest.isConsumedMask c = false ∧
          ∀ m, ctx.forest.Below root.node m → ctx.forest.isConsumedMask m → ctx.forest.Below m c →
            ∃ e, root.Visits ctx e ∧ TransGen ctx.forest.SeesThrough e.node m) ∧
      (root.SkipsMasks ctx ↔ ∀ d, root.Visits ctx d → ∀ m,
        TransGen ctx.forest.SeesThrough d.node m → ctx.forest.isConsumedMask m →
          ∀ c, ¬ctx.forest.Schedules m c) := by
  have hl : ctx.forest.Linked := hf ▸ NormalizedScene.linked_ofCanvas o canvas
  have hmasks : ∀ i c, ctx.forest.Schedules i c → ctx.forest.isConsumedMask c = false :=
    fun i c hc => Forest.not_consumed_of_mem_flattened (Forest.schedules_iff.1 hc)
  have habove : ∀ d, root.Visits ctx d → ∀ c, ctx.forest.Schedules d.node c → ∀ m,
      ctx.forest.Below root.node m → ctx.forest.isConsumedMask m → ctx.forest.Below m c →
        ∃ e, root.Visits ctx e ∧ TransGen ctx.forest.SeesThrough e.node m ∧
          ∃ c, ctx.forest.Schedules m c := by
    intro d hd c hc m hr hm hbelow
    rcases Forest.above_of_mem_flattened hl (Forest.schedules_iff.1 hc) hbelow with h | ⟨h, hmc⟩
    · exact hd.exists_seesThrough hl hr hm h
    · exact ⟨d, hd, h, c, Forest.schedules_iff.2 hmc⟩
  refine ⟨?_, ?_, ?_⟩
  · intro d hd c hc
    refine ⟨hmasks d.node c hc, ?_⟩
    intro m hr hm hbelow
    obtain ⟨e, he, hthrough, -⟩ := habove d hd c hc m hr hm hbelow
    exact ⟨e, he, hthrough⟩
  · intro hskips d hd m hthrough hm c hc
    have hmc := Forest.schedules_iff.1 hc
    have hdc := Forest.mem_flattened_of_seesThrough hthrough.to_reflTransGen hmc
    have hrm : ctx.forest.Below root.node m :=
      TransGen.trans_right hd.reflTransGen_hasChild
        (TransGen.mono (fun _ _ (h : ctx.forest.SeesThrough _ _) => h.1) _ _ hthrough)
    exact (hskips d hd c (Forest.schedules_iff.2 hdc)).2 m hrm hm (Forest.below_of_mem_flattened hmc)
  · intro hempty d hd c hc
    refine ⟨hmasks d.node c hc, ?_⟩
    intro m hr hm hbelow
    obtain ⟨e, he, hthrough, c', hmc⟩ := habove d hd c hc m hr hm hbelow
    exact hempty e he m hthrough hm c' hmc

def maskedCanvas (mask : NodeType) : SceneNode where
  attrs := { id := "0:0", name := "Page", kind := .canvas }
  children :=
    [{ attrs := { id := "1", name := "#Card" }
       children :=
        [{ attrs := { id := "2", name := "photo", kind := .rectangle } },
          { attrs := { id := "3", name := "mask", kind := mask, isMask := true }
            children := [{ attrs := { id := "4", name := "cut", kind := .rectangle } }] }] }]

def maskedCard (mask : NodeType) : Context where
  forest := (NormalizedScene.ofCanvas {} (maskedCanvas mask)).forest
  options := {}
  resources := {}
  descriptions := []

theorem no_group_maskedCard_frame :
    (maskedCard .frame).forest.nodes.toList.all (fun n => !n.kind.isGroupFamily) := by
  decide

/-- The card shows nothing that is below the mask if this is a frame. -/
theorem skipsMasks_frame :
    Draw.SkipsMasks (maskedCard .frame) ⟨0, {}, .start (maskedCard .frame) "Card", {}⟩ := by
  have hthrough : ∀ i m, ¬(maskedCard .frame).forest.SeesThrough i m := by
    rintro i m ⟨-, n, hn, hgroup⟩
    have hmem : n ∈ (maskedCard .frame).forest.nodes.toList :=
      Array.mem_toList_iff.2 (Array.mem_of_getElem? hn)
    have hplain := List.all_eq_true.1 no_group_maskedCard_frame n hmem
    rw [hgroup] at hplain
    cases hplain
  have hf : (maskedCard .frame).forest =
      (NormalizedScene.ofCanvas {} (maskedCanvas .frame)).forest := rfl
  refine (skipsMasks_iff hf _).2.2 ?_
  intro d _ m hm
  obtain ⟨i, -, hi⟩ := TransGen.tail'_iff.1 hm
  exact absurd hi (hthrough i m)

theorem children_maskedCard_group :
    (maskedCard .group).forest.children 0 = [1, 2] ∧ (maskedCard .group).forest.children 2 = [3] ∧
      (maskedCard .group).forest.isConsumedMask 2 := by
  decide

theorem flattened_maskedCard_group : (maskedCard .group).forest.flattened 0 = [1, 3] := by
  decide +kernel

/-- The card shows what is below the mask if this is a group. -/
theorem not_forall_skipsMasks :
    ¬∀ (ctx : Context) (o : Options) (canvas : SceneNode),
      ctx.forest = (NormalizedScene.ofCanvas o canvas).forest → ∀ root : Draw, root.SkipsMasks ctx := by
  intro h
  obtain ⟨hcard, hmask, hconsumed⟩ := children_maskedCard_group
  have hcut : (maskedCard .group).forest.Schedules 0 3 :=
    Forest.schedules_iff.2 (by simp [flattened_maskedCard_group])
  have hskips := h (maskedCard .group) {} (maskedCanvas .group) rfl
    ⟨0, {}, .start (maskedCard .group) "Card", {}⟩ _ .refl 3 hcut
  have hbelow : ∀ i c, c ∈ (maskedCard .group).forest.children i → (maskedCard .group).forest.Below i c :=
    fun i c hc => .single hc
  exact hskips.2 2 (hbelow 0 2 (by simp [hcard])) hconsumed (hbelow 2 3 (by simp [hmask]))

end DesignCompiler

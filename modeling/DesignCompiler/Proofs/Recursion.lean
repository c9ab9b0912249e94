import DesignCompiler.Proofs.Failures
import DesignCompiler.Proofs.Origins
import DesignCompiler.Proofs.Traversal

namespace DesignCompiler

open Step Registry Relation

variable {ctx : Context}

namespace Context

def RootOf (ctx : Context) (name : String) (i : Nat) : Prop :=
  ∃ node, ctx.forest.get? i = some node ∧ node.attrs.isComponentRoot ∧ ctx.nameOf node = name

def Nests (ctx : Context) (name : String) : Prop :=
  ∃ m n, m ≠ n ∧ ctx.forest.Below m n ∧ ctx.RootOf name m ∧ ctx.RootOf name n

end Context

def SceneNode.Nests (d : Delimiters) (name : String) (canvas : SceneNode) : Prop :=
  ∃ above below, TransGen SceneNode.HasChild canvas above ∧ TransGen SceneNode.HasChild above below ∧
    (above.attrs.isComponentRoot ∧ componentName d above.attrs.name = name) ∧
    below.attrs.isComponentRoot ∧ componentName d below.attrs.name = name

theorem Context.Nests.of_canvas {o : Options} {canvas : SceneNode} {name : String} (h : ctx.Nests name)
    (hf : ctx.forest = (NormalizedScene.ofCanvas o canvas).forest) :
    canvas.Nests ctx.options.delimiters name := by
  obtain ⟨m, n, -, hbelow, ⟨a, ha, hroota, hnamea⟩, b, hb, hrootb, hnameb⟩ := h
  rw [hf] at hbelow ha hb
  obtain ⟨above, below, hcanvas, hlayers, habove, hbelow⟩ :=
    NormalizedScene.exists_layers_of_below ha hb hbelow
  refine ⟨above, below, hcanvas, hlayers, ?_, ?_⟩
  · rw [habove]
    exact ⟨hroota, hnamea⟩
  · rw [hbelow]
    exact ⟨hrootb, hnameb⟩

namespace Call

/-- The builds that are open in a call are those of components around its node. -/
def InsideOpen (ctx : Context) : Call → Prop
  | .draw d => ∀ name ∈ d.registry.building, ∃ m, ctx.RootOf name m ∧ ctx.forest.AtOrBelow m d.node ∧
      (d.place.parent.isSome → ctx.forest.Below m d.node)
  | .build i r => (∃ name, ctx.RootOf name i) ∧
      ∀ name ∈ r.building, ∃ m, ctx.RootOf name m ∧ ctx.forest.Below m i

variable {c e : Call}

theorem Makes.insideOpen (h : Call.Makes ctx c e) (hs : c.before.Sound ctx.options.instanceSuffix)
    (hc : c.InsideOpen ctx) : e.InsideOpen ctx := by
  cases h with
  -- Builds are closed again with their calls, so that only the build of a body opens a name.
  | @child d e hd =>
      obtain ⟨-, hbuilding, -⟩ := hd.within.1 hs
      intro name hname
      rw [hbuilding] at hname
      obtain ⟨m, hm, hle, -⟩ := hc name hname
      have hbelow : ctx.forest.Below m e.node :=
        TransGen.trans_right hle (Forest.below_of_mem_flattened hd.mem_flattened)
      exact ⟨m, hm, hbelow.to_reflTransGen, fun _ => hbelow⟩
  | @nested d node before after w r found inside plugins earlier root =>
      obtain ⟨-, hbuilding, -⟩ := (nested_within found inside plugins earlier root).1 hs
      have hnode := node_runPlugins ctx (some (buildComponent ctx d.node)) before
        (Work.applyStyles ctx ⟨.start node d.place, d.scope⟩) d.registry
      rw [earlier, node_applyStyles, node_start] at hnode
      refine ⟨⟨_, node, found, hnode ▸ root, rfl⟩, ?_⟩
      intro name hname
      rw [hbuilding] at hname
      obtain ⟨m, hm, -, hbelow⟩ := hc name hname
      exact ⟨m, hm, hbelow inside⟩
  | @body i node r found unfinished unopened =>
      obtain ⟨⟨_, node', found', root, -⟩, hopen⟩ := hc
      obtain rfl := Option.some.inj (found.symm.trans found')
      intro name hname
      rcases List.mem_append.1 hname with hname | hname
      · obtain ⟨m, hm, hbelow⟩ := hopen name hname
        exact ⟨m, hm, hbelow.to_reflTransGen, fun h => nomatch h⟩
      · rw [List.mem_singleton.1 hname]
        exact ⟨i, ⟨node, found, root, rfl⟩, .refl, fun h => nomatch h⟩

theorem Reaches.insideOpen (h : Call.Reaches ctx c e) (hs : c.before.Sound ctx.options.instanceSuffix)
    (hc : c.InsideOpen ctx) : e.InsideOpen ctx := by
  induction h with
  | refl => exact hc
  | tail hreach hmakes ih => exact hmakes.insideOpen (Reaches.within hreach hs).1 ih

end Call

theorem Context.nests_of_fails {i : Nat} {r : Registry} {name found : String}
    (hr : r.Sound ctx.options.instanceSuffix) (hb : r.building = []) (hi : ctx.RootOf name i)
    (h : (Call.build i r).Fails ctx (.compile (.recursiveComponent found))) : ctx.Nests found := by
  obtain ⟨c, hreach, hraises⟩ := Call.fails_iff.1 h
  have hopen : (Call.build i r).InsideOpen ctx := by
    refine ⟨⟨name, hi⟩, ?_⟩
    rw [hb]
    exact fun name hname => nomatch hname
  have hinside := hreach.insideOpen hr hopen
  cases hraises with
  | @recursive j node q found unfinished opened =>
      obtain ⟨⟨_, node', found', root, -⟩, habove⟩ := hinside
      obtain rfl := Option.some.inj (found.symm.trans found')
      obtain ⟨m, hm, hbelow⟩ := habove _ opened
      exact ⟨m, j, Nat.ne_of_lt (Forest.Below.lt hbelow), hbelow, hm, node, found, root, rfl⟩

namespace Draw

variable {root d : Draw}

theorem Visits.reaches (h : root.Visits ctx d) : Call.Reaches ctx (.draw root) (.draw d) :=
  ReflTransGen.lift Call.draw (fun _ _ => Call.Makes.child) _ _ h

theorem Visits.building_eq (h : root.Visits ctx d) (hs : root.registry.Sound ctx.options.instanceSuffix) :
    d.registry.building = root.registry.building := by
  induction h with
  | refl => rfl
  | tail ha hd ih =>
      obtain ⟨-, hbuilding, -⟩ := hd.within.1 (Call.Reaches.within (Visits.reaches ha) hs).1
      exact hbuilding.trans ih

end Draw

section Found

variable {i : Nat} {node : Node} {r : Registry} {name : String}

theorem Call.fails_of_opened (hi : ctx.RootOf name i) (unfinished : r.components.lookup name = none)
    (opened : name ∈ r.building) : (Call.build i r).Fails ctx (.compile (.recursiveComponent name)) := by
  obtain ⟨node, found, -, rfl⟩ := hi
  exact (Call.Raises.recursive found unfinished opened).fails

theorem Call.fails_of_visits (hp : ctx.plugins = {}) (hr : r.Sound ctx.options.instanceSuffix)
    (hi : ctx.RootOf name i) (unfinished : r.components.lookup name = none) {d : Draw}
    (hd : Draw.Visits ctx ⟨i, {}, .start ctx name, r.opened name⟩ d) (hne : d.node ≠ i)
    (hroot : ctx.RootOf name d.node) :
    (Call.build i r).Fails ctx (.compile (.recursiveComponent name)) := by
  by_cases opened : name ∈ r.building
  · exact fails_of_opened hi unfinished opened
  · obtain ⟨node, found, -, rfl⟩ := hi
    have hopened := hr.opened (Table.lookup_eq_none.1 unfinished) opened
    have inside : d.place.parent.isSome := by
      rw [hd.isSome_parent rfl, bne_iff_ne]
      exact hne
    have hopen : ctx.nameOf node ∈ d.registry.building := by
      rw [hd.building_eq hopened]
      simp [Registry.opened]
    have hs := (Call.Reaches.within hd.reaches hopened).1
    have hinner := fails_of_opened hroot (Table.lookup_eq_none.2 (hs.disjoint _ hopen)) hopen
    obtain ⟨inner, found', root, -⟩ := hroot
    have hnested := hd.reaches.tail (Draw.makes_nested hp found' inside root)
    exact Reaches.fails (.head (.body found unfinished opened) hnested) hinner

/-- No component succeeds that would show another of its name. -/
theorem Call.fails_of_shows (hp : ctx.plugins = {}) (hr : r.Sound ctx.options.instanceSuffix)
    (hi : ctx.RootOf name i) (unfinished : r.components.lookup name = none) {n : Nat}
    (hn : ctx.Shows i n) (hne : n ≠ i) (hroot : ctx.RootOf name n) :
    ∃ e, (Call.build i r).Fails ctx e := by
  have hself := hi
  obtain ⟨node, found, -, rfl⟩ := hi
  rcases hbuild : exec (buildComponent ctx i) r with ⟨e | c, s⟩
  · exact ⟨e, s, hbuild⟩
  · obtain ⟨-, body, scope, t, hdraw, -⟩ := exists_body_of_build found unfinished hbuild
    have hgives : Draw.Gives ctx ⟨i, {}, .start ctx (ctx.nameOf node), r.opened (ctx.nameOf node)⟩ body :=
      ⟨(scope, t), hdraw⟩
    obtain ⟨d, hd, rfl⟩ := (Draw.exists_visits_iff hp rfl hgives).2 hn
    exact ⟨_, Call.fails_of_visits hp hr hself unfinished hd hne hroot⟩

end Found

/-- After any builds, the build of a component fails by recursion only if a component of that name lies in
another one of the same name, in the tree as in the canvas. Any build in it whose own name is not finished
fails by recursion as soon as its drawing comes to another component of that name, and it fails in any
case if it would show one. -/
theorem recursion_sound_complete {i : Nat} {name : String} (hi : ctx.RootOf name i) (roots : List Nat) :
    (∀ other, (Call.build i (ofBuilds ctx roots)).Fails ctx (.compile (.recursiveComponent other)) →
      ctx.Nests other ∧ ∀ o canvas, ctx.forest = (NormalizedScene.ofCanvas o canvas).forest →
        canvas.Nests ctx.options.delimiters other) ∧
    (ctx.plugins = {} → ∀ m r own, Call.Reaches ctx (.build i (ofBuilds ctx roots)) (.build m r) →
      ctx.RootOf own m → r.components.lookup own = none →
        (∀ d, Draw.Visits ctx ⟨m, {}, .start ctx own, r.opened own⟩ d → d.node ≠ m →
          ctx.RootOf own d.node → (Call.build m r).Fails ctx (.compile (.recursiveComponent own))) ∧
        ∀ n, ctx.Shows m n → n ≠ m → ctx.RootOf own n → ∃ e, (Call.build m r).Fails ctx e) := by
  obtain ⟨hr, hb, -⟩ := extends_ofBuilds ctx roots (Sound.empty _)
  refine ⟨fun other h => ?_, fun hp m r own hreach hm unfinished => ?_⟩
  · have hnests := Context.nests_of_fails hr hb hi h
    exact ⟨hnests, fun o canvas hf => hnests.of_canvas hf⟩
  · have hs : r.Sound ctx.options.instanceSuffix := (Call.Reaches.within hreach hr).1
    exact ⟨fun d => Call.fails_of_visits hp hs hm unfinished,
      fun n => Call.fails_of_shows hp hs hm unfinished⟩

def nestedCards : SceneNode where
  attrs := { id := "0:0", name := "Page", kind := .canvas }
  children :=
    [{ attrs := { id := "1", name := "#Card" }
       children :=
        [{ attrs := { id := "2", name := "row", kind := .group }
           children := [{ attrs := { id := "3", name := "#Card??id=inner" } }] }] }]

def drawnCards : Context where
  forest := (NormalizedScene.ofCanvas {} nestedCards).forest
  options := {}
  resources := {}
  descriptions := []

theorem shows_innerCard : drawnCards.Shows 0 2 := by
  have hgroup : drawnCards.forest.HasChild 0 1 := List.mem_singleton.2 rfl
  have hcard : drawnCards.forest.HasChild 1 2 := List.mem_singleton.2 rfl
  exact .child .root rfl rfl (.single ⟨hgroup, _, rfl, rfl⟩) hcard ⟨_, rfl, rfl, rfl⟩

/-- The card cannot be built, which is since the canvas has a card in a card. -/
theorem recursion_nestedCards :
    ∃ name, (Call.build 0 {}).Fails drawnCards (.compile (.recursiveComponent name)) ∧
      nestedCards.Nests {} name := by
  have hroot : drawnCards.RootOf "Card" 0 := ⟨_, rfl, rfl, rfl⟩
  have hinner : drawnCards.RootOf "Card" 2 := ⟨_, rfl, rfl, rfl⟩
  obtain ⟨hsound, hcomplete⟩ := recursion_sound_complete hroot []
  obtain ⟨e, he⟩ := (hcomplete rfl 0 _ _ .refl hroot rfl).2 2 shows_innerCard (by decide) hinner
  obtain ⟨name, rfl⟩ | ⟨id, markup, -, hlookup, -⟩ := he.cases_of_lenient rfl rfl
  · exact ⟨name, he, (hsound name he).2 {} _ rfl⟩
  · cases hlookup

end DesignCompiler

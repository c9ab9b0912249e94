import DesignCompiler.Proofs.Independence

namespace DesignCompiler

open Step Registry

variable {ctx : Context}

/-- The body and the scope of a component are what a drawing of its root leaves. -/
def Component.IsDrawn (ctx : Context) (c : Component) : Prop :=
  ∃ node r t, ctx.forest.get? c.root = some node ∧
    exec (drawNode ctx c.root {}) (.start ctx (ctx.nameOf node), r) = (.ok c.body, (c.scope, t)) ∧
    c = .ofBody ctx c.root node c.body c.scope

theorem isDrawn_of_exec_buildBody {i : Nat} {node : Node} {r s : Registry} {c : Component}
    (found : ctx.forest.get? i = some node) (h : exec (buildBody ctx i node) r = (.ok c, s)) :
    c.IsDrawn ctx := by
  rw [exec_buildBody] at h
  rcases hd : exec (drawNode ctx i {}) (.start ctx (ctx.nameOf node), r) with ⟨e | body, scope, t⟩ <;>
    rw [hd] at h
  · cases h
  · cases h
    exact ⟨node, r, _, found, hd, rfl⟩

theorem Step.Keeps.discard {σ α : Type} {R : σ → σ → Prop} [IsPreorder σ R] {x : Step σ α} (h : Keeps R x) :
    Keeps R (discard x) := by
  simp only [Functor.discard, map_const, Function.comp_apply, map_eq_pure_bind]
  exact h.bind fun _ => Keeps.pure _

namespace Registry

def Drawn (ctx : Context) (r : Registry) : Prop := ∀ e ∈ r.components, e.2.IsDrawn ctx

def KeepsDrawn (ctx : Context) (r s : Registry) : Prop := r.Drawn ctx → s.Drawn ctx

instance : IsPreorder Registry (KeepsDrawn ctx) where
  refl _ h := h
  trans _ _ _ h h' hr := h' (h hr)

theorem Drawn.stored {r : Registry} (h : r.Drawn ctx) {c : Component} (hc : c.IsDrawn ctx)
    (name : String) : (r.stored name c).Drawn ctx := by
  intro e he
  rcases Table.mem_put he with rfl | he
  · exact hc
  · exact h e he

theorem keepsDrawn_buildComponent (ctx : Context) (i : Nat) :
    Keeps (KeepsDrawn ctx) (buildComponent ctx i) := by
  refine (keeps_calls ?_).2 i
  intro i node found hdraw r hr
  rw [exec_buildOnce]
  split
  · exact hr
  · split
    · exact hr
    · -- Opening a name and closing it again leave the components as they are.
      have hbody := keeps_buildBody hdraw node (r.opened (ctx.nameOf node)) hr
      rcases hb : exec (buildBody ctx i node) (r.opened (ctx.nameOf node)) with ⟨e | c, s⟩ <;>
        rw [hb] at hbody
      · exact hbody
      · have hclosed : (s.closed (ctx.nameOf node)).Drawn ctx := hbody
        exact hclosed.stored (isDrawn_of_exec_buildBody found hb) _

theorem drawn_of_builds {roots : List Nat} {r s : Registry} (hr : r.Drawn ctx)
    (h : exec (roots.forM fun i => discard (buildComponent ctx i)) r = (.ok (), s)) : s.Drawn ctx := by
  have hkeeps : Keeps (KeepsDrawn ctx) (roots.forM fun i => discard (buildComponent ctx i)) :=
    Keeps.forM fun i _ => (keepsDrawn_buildComponent ctx i).discard
  have hs := hkeeps r hr
  rwa [h] at hs

theorem Reachable.drawn {r : Registry} (h : r.Reachable ctx) : r.Drawn ctx := by
  induction h with
  | empty => exact fun e he => by cases he
  | built _ i ih => exact keepsDrawn_buildComponent ctx i _ ih
  | @inside r i c hr hc ih =>
      -- What is there when a call begins is there when the build around it ends.
      obtain ⟨hsound, -, hafter⟩ := hc.within hr.sound
      have hbefore := (c.extends hsound).2.2
      have hbuilt := keepsDrawn_buildComponent ctx i r ih
      exact fun e he => hbuilt e (hafter.subset (hbefore.subset he))

end Registry

/-- A build answers a component that was drawn from its root, whether it draws or finds it. -/
theorem isDrawn_of_build {i : Nat} {r s : Registry} {c : Component} (hr : r.Reachable ctx)
    (h : exec (buildComponent ctx i) r = (.ok c, s)) : c.IsDrawn ctx := by
  obtain ⟨node, -, hl⟩ := lookup_of_build (congrArg Prod.fst h)
  have hs := keepsDrawn_buildComponent ctx i r hr.drawn
  exact hs _ (Table.mem_of_lookup hl)

end DesignCompiler

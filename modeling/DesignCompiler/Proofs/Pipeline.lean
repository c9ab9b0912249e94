import DesignCompiler.Proofs.Drawing

namespace DesignCompiler

open Step

variable {ctx : Context} {nested : Option (Registering Component)}

/-- The same node with the same fragments, whatever its styles, classes and properties. -/
structure Visit.Same (v w : Visit) : Prop where
  node_eq : w.node = v.node
  place_eq : w.place = v.place
  prelude_eq : w.prelude = v.prelude
  content_eq : w.content = v.content
  cleared_eq : w.cleared = v.cleared

namespace Visit.Same

theorem refl (v : Visit) : Same v v := ⟨rfl, rfl, rfl, rfl, rfl⟩

theorem trans {u v w : Visit} (h : Same u v) (h' : Same v w) : Same u w :=
  ⟨h'.node_eq.trans h.node_eq, h'.place_eq.trans h.place_eq, h'.prelude_eq.trans h.prelude_eq,
    h'.content_eq.trans h.content_eq, h'.cleared_eq.trans h.cleared_eq⟩

theorem setMiddle (v : Visit) (property : String) (value : StyleValue) :
    Same v (v.setMiddle property value) := ⟨rfl, rfl, rfl, rfl, rfl⟩

theorem orderMiddle (v : Visit) : Same v v.orderMiddle := by
  unfold Visit.orderMiddle
  split
  · exact setMiddle ..
  · exact refl v

theorem rotate (v : Visit) : Same v v.rotate := by
  unfold Visit.rotate
  split
  · split
    · exact (setMiddle ..).trans (setMiddle ..)
    · exact refl v
  · exact refl v

theorem alignHorizontally (v : Visit) : Same v v.alignHorizontally := by
  unfold Visit.alignHorizontally
  split
  · exact ⟨rfl, rfl, rfl, rfl, rfl⟩
  · exact refl v

theorem alignVertically (v : Visit) : Same v v.alignVertically := by
  unfold Visit.alignVertically
  split
  · exact ⟨rfl, rfl, rfl, rfl, rfl⟩
  · exact refl v

theorem foldl_setMiddle (sides : List String) (v : Visit) :
    Same v (sides.foldl (fun v side => v.setMiddle side (.number 0)) v) := by
  induction sides generalizing v with
  | nil => exact refl v
  | cons side sides ih => exact (setMiddle v side _).trans (ih _)

theorem layOut (w : Work) : Same w.visit w.layOut.visit := by
  have hmargins : Same w.visit
      (if w.visit.place.parent.any (·.attrs.isStack) then
        w.editVisit fun v => margins.foldl (fun v side => v.setMiddle side (.number 0)) v
      else w).visit := by
    split
    · exact foldl_setMiddle margins w.visit
    · exact refl _
  unfold Work.layOut
  dsimp only
  split
  · exact hmargins
  · exact hmargins
  · exact hmargins.trans ⟨rfl, rfl, rfl, rfl, rfl⟩

theorem paint (v : Visit) : Same v (v.paint ctx) := by
  unfold Visit.paint
  split
  · exact ⟨rfl, rfl, rfl, rfl, rfl⟩
  · split
    · exact ⟨rfl, rfl, rfl, rfl, rfl⟩
    · exact refl v

theorem composeMask (v : Visit) : Same v (v.composeMask ctx) := by
  unfold Visit.composeMask
  dsimp only
  split
  · exact refl v
  · exact ⟨rfl, rfl, rfl, rfl, rfl⟩

theorem applyStyle (p : StylePlugin) (w : Work) : Same w.visit (p.apply ctx w).visit := by
  cases p with
  | middleOrder => exact orderMiddle _
  | transformation => exact rotate _
  | horizontalAlign => exact alignHorizontally _
  | verticalAlign => exact alignVertically _
  | autoLayout => exact layOut w
  | frameStyles => exact paint _
  | maskCompositing => exact composeMask _

theorem applyStyles (w : Work) : Same w.visit (w.applyStyles ctx).visit := by
  rw [Work.applyStyles]
  induction ctx.plugins.style generalizing w with
  | nil => exact refl _
  | cons p plugins ih => exact (applyStyle p w).trans (ih _)

theorem finish (v : Visit) : Same v v.finish := by
  unfold Visit.finish
  dsimp only
  split <;> split <;> exact ⟨rfl, rfl, rfl, rfl, rfl⟩

theorem applyNameStyles (v : Visit) : Same v v.applyNameStyles := ⟨rfl, rfl, rfl, rfl, rfl⟩

theorem setProperty (v : Visit) (name code : String) : Same v (v.setProperty name code) :=
  ⟨rfl, rfl, rfl, rfl, rfl⟩

theorem bindClick (w : Work) : Same w.visit w.bindClick.visit := by
  unfold Work.bindClick
  split
  · exact setProperty ..
  · exact refl _

theorem setId (v : Visit) : Same v v.setId := by
  unfold Visit.setId
  split
  · exact setProperty ..
  · exact refl v

theorem addNamedClass (v : Visit) : Same v v.addNamedClass := by
  unfold Visit.addNamedClass
  split
  · exact ⟨rfl, rfl, rfl, rfl, rfl⟩
  · exact refl v

end Visit.Same

def Context.vector? (ctx : Context) (node : Node) : Option String :=
  if node.kind = .vector ∧ ¬node.attrs.isMask then ctx.resources.vectors.lookup node.attrs.id else none

def Work.stretch (w : Work) : Work :=
  let declarations := stretchDeclarations (stretchesHorizontally w.visit.node.constraints.horizontal)
    (stretchesVertically w.visit.node.constraints.vertical)
  let cleared := (w.editVisit Visit.clear).allot.2
  if declarations.isEmpty then cleared
  else cleared.editScope fun s => s.addExtra (.allotted w.scope.nextClass "" declarations)

theorem Work.stretch_visit (w : Work) : w.stretch.visit = w.visit.clear := by
  unfold stretch
  dsimp only
  split <;> rfl

theorem Work.stretch_classPrefix (w : Work) : w.stretch.scope.classPrefix = w.scope.classPrefix := by
  unfold stretch
  dsimp only
  split <;> rfl

/-- Of a vector at most one fragment is drawn, a picture or its markup, with the class that it takes. -/
theorem Work.drawVector_cases {w w' : Work} (h : w.drawVector ctx = (.ok (), w')) :
    (ctx.vector? w.visit.node = none ∧ w' = w) ∨
    ∃ markup, ctx.vector? w.visit.node = some markup ∧
      (w' = w.stretch ∨
        (∃ url, w' = w.stretch.editVisit fun v => v.addContent (.picture w.scope.nextClass url)) ∨
        ∃ drawn, Markup.transcode markup
            { source := w.visit.node.attrs.id
              className := some ("vector " ++ numberedClass w.scope.classPrefix w.scope.nextClass) } = .ok drawn ∧
          w' = w.stretch.editVisit fun v => v.addContent (.drawing w.scope.nextClass drawn)) := by
  unfold Work.drawVector at h
  dsimp only at h
  rw [Context.vector?]
  split at h
  · next hkind =>
    cases h
    exact .inl ⟨if_neg (by simpa [imp_iff_not_or] using hkind), rfl⟩
  · next hkind =>
    rw [if_pos (by simpa using hkind)]
    split at h
    · next hlookup =>
      cases h
      exact .inl ⟨hlookup, rfl⟩
    · next markup hlookup =>
      refine .inr ⟨markup, hlookup, ?_⟩
      split at h
      · split at h <;> cases h
        · exact .inr (.inl ⟨_, rfl⟩)
        · exact .inl rfl
      · split at h
        · next drawn htranscode =>
          cases h
          exact .inr (.inr ⟨drawn, w.stretch_classPrefix ▸ htranscode, rfl⟩)
        · exact .inl (Prod.mk.inj h).2.symm

/-- All that the default plugins do before the one for nested components. -/
def Work.beforeNested (ctx : Context) (w : Work) : Work :=
  (w.applyStyles ctx).editVisit Visit.applyNameStyles

def Work.drawParameters (w : Work) : Work :=
  (w.drawSlot.drawSlotFallback.drawGuard "ifTrue" .truthy).drawGuard "ifFalse" .falsy

/-- All that the default plugins do after the one for vectors. -/
def Work.afterVector (w : Work) : Work :=
  (((w.drawParameters.bindClick).editVisit Visit.setId).editVisit Visit.addNamedClass).drawText

theorem exec_runPlugins_cons (p : ContentPlugin) (plugins : List ContentPlugin)
    (s : Work × Registry) :
    exec (runPlugins ctx nested (p :: plugins)) s =
      match exec (p.apply ctx nested) s with
      | (.ok _, t) => exec (runPlugins ctx nested plugins) t
      | (.error e, t) => (.error e, t) := by
  change exec (p.apply ctx nested >>= fun _ => runPlugins ctx nested plugins) s = _
  rw [exec_bind]
  rcases exec (p.apply ctx nested) s with ⟨_ | _, t⟩ <;> rfl

theorem exec_afterVector (w : Work) (r : Registry) :
    exec (runPlugins ctx nested [.contentSlot, .contentSlotFallback, .ifTrue, .ifFalse, .onClick,
      .elementId, .extraClass, .text]) (w, r) = (.ok (), (w.afterVector, r)) := rfl

theorem exec_draw_default (hp : ctx.plugins = {}) (v : Visit) (scope : Scope) (r : Registry) :
    exec (v.draw ctx nested) (scope, r) =
      match exec (drawNested ctx nested) (Work.beforeNested ctx ⟨v, scope⟩, r) with
      | (.error e, (w, s)) => (.error e, (w.scope, s))
      | (.ok _, (w, s)) =>
        match (w.editVisit Visit.hideMask).drawVector ctx with
        | (.error e, w) => (.error (.markup e), (w.scope, s))
        | (.ok _, w) => (.ok w.afterVector.visit, (w.afterVector.scope, s)) := by
  have hplugins : exec (runPlugins ctx nested ctx.plugins.content)
      (Work.applyStyles ctx ⟨v, scope⟩, r) =
        exec (runPlugins ctx nested (.nestedComponent :: .renderMask :: .renderVector ::
          [.contentSlot, .contentSlotFallback, .ifTrue, .ifFalse, .onClick, .elementId, .extraClass,
            .text])) (Work.beforeNested ctx ⟨v, scope⟩, r) := by
    have hall : ctx.plugins.content = .nameStyles :: .nestedComponent :: .renderMask ::
        .renderVector :: [.contentSlot, .contentSlotFallback, .ifTrue, .ifFalse, .onClick,
          .elementId, .extraClass, .text] := by
      rw [hp]
      rfl
    rw [hall, exec_runPlugins_cons, ContentPlugin.apply, exec_edit]
    rfl
  rw [exec_draw, hplugins, exec_runPlugins_cons, ContentPlugin.apply]
  rcases exec (drawNested ctx nested) (Work.beforeNested ctx ⟨v, scope⟩, r) with ⟨e | u, w, s⟩
  · rfl
  · dsimp only
    rw [exec_runPlugins_cons, ContentPlugin.apply, exec_edit]
    dsimp only
    rw [exec_runPlugins_cons, ContentPlugin.apply, exec_drawVector]
    rcases Work.drawVector ctx (w.editVisit Visit.hideMask) with ⟨e | u, w⟩
    · rfl
    · dsimp only [Except.mapError]
      rw [exec_afterVector]

end DesignCompiler

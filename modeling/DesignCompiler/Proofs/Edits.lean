import DesignCompiler.Proofs.Pipeline

namespace DesignCompiler

open Step

variable {ctx : Context}

def Fragment.component? : Fragment → Option String
  | .component name _ => some name
  | _ => none

def Visit.components (v : Visit) : List String := (v.prelude ++ v.content).filterMap Fragment.component?

theorem Scope.imports_addStyle (s : Scope) (style : StyleMap) : (s.addStyle style).2.imports = s.imports := by
  unfold Scope.addStyle
  dsimp only
  split <;> rfl

/-- The same node with the same imports, and no new component shown. -/
structure Work.Edits (v w : Work) : Prop where
  node_eq : w.visit.node = v.visit.node
  imports_eq : w.scope.imports = v.scope.imports
  shown : w.visit.components ⊆ v.visit.components

namespace Work.Edits

variable {u v w : Work}

theorem refl (w : Work) : Edits w w := ⟨rfl, rfl, List.Subset.refl _⟩

theorem trans (h : Edits u v) (h' : Edits v w) : Edits u w :=
  ⟨h'.node_eq.trans h.node_eq, h'.imports_eq.trans h.imports_eq, List.Subset.trans h'.shown h.shown⟩

theorem of_same (h : Visit.Same v.visit w.visit) (hi : w.scope.imports = v.scope.imports) :
    Edits v w := by
  refine ⟨h.node_eq, hi, ?_⟩
  rw [Visit.components, h.prelude_eq, h.content_eq]
  exact List.Subset.refl _

theorem editScope {f : Scope → Scope} (hf : ∀ s, (f s).imports = s.imports) (w : Work) :
    Edits w (w.editScope f) :=
  ⟨rfl, hf w.scope, List.Subset.refl _⟩

theorem clear (w : Work) : Edits w (w.editVisit Visit.clear) := by
  refine ⟨rfl, rfl, ?_⟩
  intro name hname
  rw [Work.editVisit, Visit.components, Visit.clear, List.append_nil] at hname
  rw [Visit.components, List.filterMap_append]
  exact List.mem_append_left _ hname

theorem addFragments (before after : List Fragment) (hb : before.filterMap Fragment.component? = [])
    (ha : after.filterMap Fragment.component? = []) (hn : w.visit.node = v.visit.node)
    (hi : w.scope.imports = v.scope.imports) (hprelude : w.visit.prelude = v.visit.prelude ++ before)
    (hcontent : w.visit.content = v.visit.content ++ after) : Edits v w := by
  refine ⟨hn, hi, ?_⟩
  rw [Visit.components, Visit.components, hprelude, hcontent]
  simp only [List.filterMap_append, hb, ha, List.append_nil]
  exact List.Subset.refl _

theorem addContent {f : Fragment} (hf : f.component? = none) (hn : w.visit.node = v.visit.node)
    (hi : w.scope.imports = v.scope.imports) (hprelude : w.visit.prelude = v.visit.prelude)
    (hcontent : w.visit.content = v.visit.content ++ [f]) : Edits v w := by
  refine addFragments [] [f] rfl ?_ hn hi ?_ hcontent
  · rw [List.filterMap_cons, hf]
    rfl
  · rw [hprelude, List.append_nil]

theorem applyStyle (p : StylePlugin) (w : Work) : Edits w (p.apply ctx w) := by
  refine of_same (Visit.Same.applyStyle p w) ?_
  cases p with
  | autoLayout =>
      change w.layOut.scope.imports = w.scope.imports
      unfold Work.layOut
      dsimp only
      split <;> split <;> rfl
  | _ => rfl

theorem applyStyles (w : Work) : Edits w (w.applyStyles ctx) := by
  rw [Work.applyStyles]
  induction ctx.plugins.style generalizing w with
  | nil => exact refl _
  | cons p plugins ih => exact (applyStyle p w).trans (ih _)

theorem hideMask (w : Work) : Edits w (w.editVisit Visit.hideMask) := by
  unfold Work.editVisit Visit.hideMask
  split
  · exact clear w
  · exact refl w

theorem drawSlot (w : Work) : Edits w w.drawSlot := by
  unfold Work.drawSlot
  split
  · split
    · exact refl w
    · exact (clear w).trans (addContent (f := .slot _) rfl rfl rfl rfl rfl)
  · exact refl w

theorem drawSlotFallback (w : Work) : Edits w w.drawSlotFallback := by
  unfold Work.drawSlotFallback
  split
  · split
    · exact addFragments [.guard .falsy _] [.guardEnd, .slot _] rfl rfl rfl rfl rfl
        (List.append_assoc ..)
    · exact refl w
  · exact refl w

theorem drawGuard (key : String) (g : Guard) (w : Work) : Edits w (w.drawGuard key g) := by
  unfold Work.drawGuard
  split
  · exact addFragments [.guard g _] [.guardEnd] rfl rfl rfl rfl rfl rfl
  · exact refl w

theorem bindClick (w : Work) : Edits w w.bindClick := by
  refine of_same (Visit.Same.bindClick w) ?_
  unfold Work.bindClick
  split <;> rfl

theorem drawPieces (o : RunOptions) (pieces : List Text.Piece) (w : Work) (styles : RunStyles) :
    Edits w (w.drawPieces o styles pieces) := by
  induction pieces generalizing w styles with
  | nil => exact refl w
  | cons piece pieces ih =>
      have hpiece : Edits w (w.drawPiece o styles piece).1 := by
        cases piece with
        | run text style index key =>
            exact addContent (f := .span _ key text) rfl rfl (Scope.imports_addStyle ..) rfl rfl
        | lineBreak key =>
            exact addContent (f := .lineBreak _ key) rfl rfl
              (Scope.imports_addStyle w.scope lineBreakStyle) rfl rfl
        | blankLine key =>
            exact addContent (f := .blankLine _ key) rfl rfl
              (Scope.imports_addStyle w.scope blankLineStyle) rfl rfl
      exact hpiece.trans (ih ..)

theorem drawInput (w : Work) : Edits w w.drawInput :=
  addContent (f := .input ..) rfl rfl (Scope.imports_addStyle w.scope inputStyle) rfl rfl

theorem drawText (w : Work) : Edits w w.drawText := by
  have hbox : ∀ f : Visit → StyleMap, Edits w (w.editVisit fun v => { v with middle := f v }) :=
    fun f => of_same ⟨rfl, rfl, rfl, rfl, rfl⟩ rfl
  unfold Work.drawText
  dsimp only
  split
  · exact refl w
  · refine (hbox fun v => textBox w.visit.node.attrs (v.params.contains "filterShadow") v.middle).trans ?_
    split
    · exact drawInput _
    · exact drawPieces ..

theorem addDescription (w : Work) : Edits w (w.addDescription ctx) := by
  unfold Work.addDescription
  split
  · exact editScope (f := fun s => s.addExtra (.written _)) (fun _ => rfl) w
  · exact refl w

theorem drawVector (w : Work) : Edits w (w.drawVector ctx).2 := by
  have hallot : Edits w (w.editVisit Visit.clear).allot.2 :=
    (clear w).trans (of_same (Visit.Same.refl _) rfl)
  have hstyled : ∀ (b : Bool) (rule : ExtraRule), Edits w
      (if b then (w.editVisit Visit.clear).allot.2
        else (w.editVisit Visit.clear).allot.2.editScope fun s => s.addExtra rule) := by
    intro b rule
    cases b with
    | true => exact hallot
    | false => exact hallot.trans (editScope (f := fun s => s.addExtra rule) (fun _ => rfl) _)
  unfold Work.drawVector
  dsimp only
  split
  · exact refl w
  · split
    · exact refl w
    · split
      · split
        · exact (hstyled ..).trans (addContent (f := .picture _ _) rfl rfl rfl rfl rfl)
        · exact hstyled ..
      · split
        · exact (hstyled ..).trans (addContent (f := .drawing _ _) rfl rfl rfl rfl rfl)
        · exact hstyled ..

/-- Of all content plugins only that for nested components imports or shows one. -/
theorem apply (ctx : Context) (nested : Option (Registering Component)) {p : ContentPlugin}
    (hp : p ≠ .nestedComponent) (w : Work) (r : Registry) :
    ∃ v, (exec (p.apply ctx nested) (w, r)).2 = (v, r) ∧ Edits w v := by
  cases p with
  | nestedComponent => exact absurd rfl hp
  | nameStyles => exact ⟨_, rfl, of_same (Visit.Same.applyNameStyles _) rfl⟩
  | renderMask => exact ⟨_, rfl, hideMask w⟩
  | renderVector => exact ⟨_, rfl, drawVector w⟩
  | contentSlot => exact ⟨_, rfl, drawSlot w⟩
  | contentSlotFallback => exact ⟨_, rfl, drawSlotFallback w⟩
  | ifTrue => exact ⟨_, rfl, drawGuard "ifTrue" .truthy w⟩
  | ifFalse => exact ⟨_, rfl, drawGuard "ifFalse" .falsy w⟩
  | onClick => exact ⟨_, rfl, bindClick w⟩
  | elementId => exact ⟨_, rfl, of_same (Visit.Same.setId _) rfl⟩
  | extraClass => exact ⟨_, rfl, of_same (Visit.Same.addNamedClass _) rfl⟩
  | text => exact ⟨_, rfl, drawText w⟩

end Work.Edits

end DesignCompiler

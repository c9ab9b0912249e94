import DesignCompiler.Markup.Transcode
import DesignCompiler.Proofs.Bares
import DesignCompiler.Proofs.Tables

namespace DesignCompiler.Markup

def Bare.setAttribute (name : String) (value : AttrValue) (b : Bare) : Bare :=
  { b with attributes := Table.put name value b.attributes }

/-- One list has `edit b` in place of the first `b` of the other one that has the id. -/
def EditsFirst (id : String) (edit : Bare → Bare) (s t : List Bare) : Prop :=
  ∃ before b after, s = before ++ b :: after ∧ (∀ a ∈ before, a.id? ≠ some id) ∧ b.id? = some id ∧
    t = before ++ edit b :: after

namespace EditsFirst

variable {id : String} {edit : Bare → Bare} {s t : List Bare}

theorem append_right (h : EditsFirst id edit s t) (u : List Bare) : EditsFirst id edit (s ++ u) (t ++ u) := by
  obtain ⟨before, b, after, rfl, hbefore, hb, rfl⟩ := h
  exact ⟨before, b, after ++ u, by simp, hbefore, hb, by simp⟩

theorem append_left (h : EditsFirst id edit s t) {u : List Bare} (hu : ∀ a ∈ u, a.id? ≠ some id) :
    EditsFirst id edit (u ++ s) (u ++ t) := by
  obtain ⟨before, b, after, rfl, hbefore, hb, rfl⟩ := h
  refine ⟨u ++ before, b, after, by simp, fun a ha => ?_, hb, by simp⟩
  exact (List.mem_append.1 ha).elim (hu a) (hbefore a)

theorem idxOf_eq {before after : List Bare} {b : Bare} (hbefore : ∀ a ∈ before, a.id? ≠ some id)
    (hb : b.id? = some id) : ((before ++ b :: after).map Bare.id?).idxOf (some id) = before.length := by
  have hnotMem : some id ∉ before.map Bare.id? := by
    rw [List.mem_map]
    rintro ⟨a, ha, hid⟩
    exact hbefore a ha hid
  rw [List.map_append, List.map_cons, hb, List.idxOf_append_of_notMem hnotMem, List.idxOf_cons_self,
    List.length_map, Nat.add_zero]

theorem eq_mapIdx (h : EditsFirst id edit s t) :
    t = s.mapIdx fun i b => if (s.map Bare.id?).idxOf (some id) = i then edit b else b := by
  obtain ⟨before, b, after, rfl, hbefore, hb, rfl⟩ := h
  rw [idxOf_eq hbefore hb]
  apply List.ext_getElem?
  intro i
  rw [List.getElem?_mapIdx]
  rcases Nat.lt_trichotomy i before.length with hlt | rfl | hgt
  · rw [List.getElem?_append_left hlt, List.getElem?_append_left hlt]
    simp [Nat.ne_of_gt hlt]
  · simp
  · obtain ⟨k, rfl⟩ := Nat.exists_eq_add_of_lt hgt
    simp [List.getElem?_append_right, Nat.add_assoc]

end EditsFirst

namespace Element

def ids (e : Element) : List (Option String) := e.bares.map Bare.id?

theorem mem_ids_iff {id : String} {e : Element} : some id ∈ e.ids ↔ ∃ d ∈ e.parts, d.id? = some id := by
  rw [ids, bares, List.map_map, List.mem_map]
  rfl

def ActsAs (f : Element → Element) (edit : Bare → Bare) : Prop :=
  ∀ e, (f e).bares = edit e.bare :: baresOfAll e.children

section Update

variable {f : Element → Element} {edit : Bare → Bare}

mutual

theorem update?_cases (hf : ActsAs f edit) (id : String) : ∀ e : Element,
    e.update? id f = none ∧ (∀ b ∈ e.bares, b.id? ≠ some id) ∨
      ∃ d, e.update? id f = some d ∧ EditsFirst id edit e.bares d.bares
  | ⟨tag, attributes, spreads, children⟩ => by
    by_cases hid : Element.id? ⟨tag, attributes, spreads, []⟩ = some id
    · refine .inr ⟨f ⟨tag, attributes, spreads, children⟩, by rw [update?, if_pos hid], ?_⟩
      rw [hf, bares_eq]
      exact ⟨[], _, _, rfl, by simp, hid, rfl⟩
    · rw [update?, if_neg hid, bares_eq]
      rcases updateIn?_cases hf id children with ⟨hnone, hmissing⟩ | ⟨changed, hsome, hchildren, hedits⟩
      · refine .inl ⟨by rw [hnone]; rfl, ?_⟩
        rw [List.forall_mem_cons]
        exact ⟨hid, hmissing⟩
      · refine .inr ⟨⟨tag, attributes, spreads, changed⟩, by rw [hsome]; rfl, ?_⟩
        have hbare : Element.bare ⟨tag, attributes, spreads, changed⟩ =
            Element.bare ⟨tag, attributes, spreads, children⟩ := by
          rw [bare, bare, hchildren]
        rw [bares_eq ⟨tag, attributes, spreads, changed⟩, hbare]
        refine hedits.append_left (u := [_]) fun a ha => ?_
        rw [List.mem_singleton.1 ha]
        exact hid

theorem updateIn?_cases (hf : ActsAs f edit) (id : String) : ∀ children : List (Child Element),
    updateIn? id f children = none ∧ (∀ b ∈ baresOfAll children, b.id? ≠ some id) ∨
      ∃ changed, updateIn? id f children = some changed ∧
        changed.map (Child.map fun _ => ()) = children.map (Child.map fun _ => ()) ∧
        EditsFirst id edit (baresOfAll children) (baresOfAll changed)
  | [] => .inl ⟨rfl, by simp⟩
  | .element e :: rest => by
    rw [updateIn?, baresOfAll_element]
    rcases update?_cases hf id e with ⟨hnone, hmissing⟩ | ⟨d, hsome, hedits⟩
    · rw [hnone]
      rcases updateIn?_cases hf id rest with ⟨hnone, hrest⟩ | ⟨changed, hsome, hchildren, hedits⟩
      · refine .inl ⟨by rw [hnone]; rfl, ?_⟩
        rw [List.forall_mem_append]
        exact ⟨hmissing, hrest⟩
      · refine .inr ⟨.element e :: changed, by rw [hsome]; rfl, by rw [List.map_cons, hchildren]; rfl, ?_⟩
        rw [baresOfAll_element]
        exact hedits.append_left hmissing
    · rw [hsome]
      refine .inr ⟨.element d :: rest, rfl, rfl, ?_⟩
      rw [baresOfAll_element]
      exact hedits.append_right _
  | .text s :: rest => by
    rw [updateIn?, baresOfAll_text]
    · rcases updateIn?_cases hf id rest with ⟨hnone, hrest⟩ | ⟨changed, hsome, hchildren, hedits⟩
      · exact .inl ⟨by rw [hnone]; rfl, hrest⟩
      · refine .inr ⟨.text s :: changed, by rw [hsome]; rfl, by rw [List.map_cons, hchildren]; rfl, ?_⟩
        rwa [baresOfAll_text]
    · simp
  | .expression code :: rest => by
    rw [updateIn?, baresOfAll_expression]
    · rcases updateIn?_cases hf id rest with ⟨hnone, hrest⟩ | ⟨changed, hsome, hchildren, hedits⟩
      · exact .inl ⟨by rw [hnone]; rfl, hrest⟩
      · refine .inr ⟨.expression code :: changed, by rw [hsome]; rfl, by rw [List.map_cons, hchildren]; rfl, ?_⟩
        rwa [baresOfAll_expression]
    · simp

end

theorem update?_eq (hf : ActsAs f edit) (id : String) (e : Element) :
    some id ∉ e.ids ∧ e.update? id f = none ∨
      some id ∈ e.ids ∧ ∃ d, e.update? id f = some d ∧
        d.bares = e.bares.mapIdx fun i b => if e.ids.idxOf (some id) = i then edit b else b := by
  rcases update?_cases hf id e with ⟨hnone, hmissing⟩ | ⟨d, hsome, hedits⟩
  · refine .inl ⟨fun hmem => ?_, hnone⟩
    obtain ⟨b, hb, hid⟩ := List.mem_map.1 hmem
    exact hmissing b hb hid
  · refine .inr ⟨?_, d, hsome, hedits.eq_mapIdx⟩
    obtain ⟨before, b, after, heq, -, hid, -⟩ := hedits
    rw [ids, heq]
    exact List.mem_map.2 ⟨b, by simp, hid⟩

end Update

theorem baresOfAll_append (c d : List (Child Element)) : baresOfAll (c ++ d) = baresOfAll c ++ baresOfAll d := by
  induction c with
  | nil => rfl
  | cons child c ih => cases child <;> simp [ih]

theorem actsAs_setAttribute (name : String) (value : AttrValue) :
    ActsAs (setAttribute name value) (Bare.setAttribute name value) := by
  intro e
  rw [bares_eq]
  rfl

end Element

namespace Transcoding

variable (t : Transcoding)

def childrenIds : List String :=
  match t.children with
  | some (.element id) => [id]
  | _ => []

def targets : List String := t.refs.keys ++ t.childrenIds

/-- The element that is written: the document, or the first element in it that has the id of the root. -/
def root? (document : Element) : Option Element :=
  match t.root with
  | none => some document
  | some id => document.parts.find? fun d => d.id? = some id

/-- The first id that no element has, be it that of the root in the document or a target in the root. -/
def missing? (document : Element) : Option String :=
  match t.root? document with
  | none => t.root
  | some root => t.targets.find? fun id => some id ∉ root.ids

section Edits

variable (ids : List (Option String)) (i : Nat)

/-- The expression that refers to the element at a position, if the element is the first with its id. -/
def refAt? : Option String := (t.refs.filter fun ref => ids.idxOf (some ref.1) = i).getLast?.map Prod.snd

def takesChildren : Bool :=
  match t.children with
  | none => false
  | some .root => i = 0
  | some (.element id) => ids.idxOf (some id) = i

def classed (attributes : Table AttrValue) : Table AttrValue :=
  match t.className with
  | none => attributes
  | some name =>
    let merged := match literal? "className" attributes with
      | some existing => name ++ " " ++ existing
      | none => name
    Table.put "className" (.literal merged) attributes

/-- The element at a position of the root with the edits that are meant for it. -/
def edited (b : Bare) : Bare where
  tag := b.tag
  attributes :=
    let referred := match t.refAt? ids i with
      | some code => Table.put "ref" (.expression code) b.attributes
      | none => b.attributes
    objectifyStyle (if i = 0 then t.classed referred else referred)
  spreads := if i = 0 ∧ t.passProps then b.spreads ++ [t.propsExpression] else b.spreads
  children := if t.takesChildren ids i then b.children ++ [.expression t.childrenExpression] else b.children

end Edits

theorem actsAs_spreadProps : Element.ActsAs t.spreadProps fun b =>
    { b with spreads := if t.passProps then b.spreads ++ [t.propsExpression] else b.spreads } := by
  intro e
  rw [Element.bares_eq, spreadProps]
  by_cases h : t.passProps <;> simp [h, Element.bare]

theorem actsAs_addClass : Element.ActsAs t.addClass fun b => { b with attributes := t.classed b.attributes } := by
  intro e
  rw [Element.bares_eq, addClass]
  simp only [classed]
  cases t.className <;> rfl

theorem actsAs_appendChildren :
    Element.ActsAs t.appendChildren fun b => { b with children := b.children ++ [.expression t.childrenExpression] } := by
  intro e
  rw [Element.bares_eq, appendChildren, Element.baresOfAll_append]
  simp [Element.bare, Child.map]

section Steps

variable {t}

theorem ids_eq_of_mapIdx {d e : Element} {edit : Nat → Bare → Bare} (h : d.bares = e.bares.mapIdx edit)
    (hedit : ∀ i b, (edit i b).id? = b.id?) : d.ids = e.ids := by
  apply List.ext_getElem?
  intro i
  rw [Element.ids, Element.ids, h, List.getElem?_map, List.getElem?_map, List.getElem?_mapIdx, Option.map_map]
  exact Option.map_congr fun b _ => hedit i b

theorem id?_setAttribute {name : String} (h : name ≠ "id") (value : AttrValue) (b : Bare) :
    (b.setAttribute name value).id? = b.id? := by
  rw [Bare.id?, Bare.id?, literal?, literal?, Bare.setAttribute, Table.lookup_put_of_ne (Ne.symm h)]

def refer (ids : List (Option String)) (i : Nat) (b : Bare) (ref : String × String) : Bare :=
  if ids.idxOf (some ref.1) = i then b.setAttribute "ref" (.expression ref.2) else b

theorem id?_refer (ids : List (Option String)) (i : Nat) (b : Bare) (ref : String × String) :
    (refer ids i b ref).id? = b.id? := by
  rw [refer]
  by_cases h : ids.idxOf (some ref.1) = i
  · rw [if_pos h, id?_setAttribute (by decide)]
  · rw [if_neg h]

theorem addRef_cases (e : Element) (ref : String × String) :
    some ref.1 ∉ e.ids ∧ t.addRef e ref = .error (t.missing ref.1) ∨
      some ref.1 ∈ e.ids ∧ ∃ d, t.addRef e ref = .ok d ∧ d.bares = e.bares.mapIdx fun i b => refer e.ids i b ref := by
  have hacts := Element.actsAs_setAttribute "ref" (.expression ref.2)
  rcases Element.update?_eq hacts ref.1 e with ⟨hmissing, hnone⟩ | ⟨hmem, d, hsome, hbares⟩
  · exact .inl ⟨hmissing, by rw [addRef, hnone]⟩
  · exact .inr ⟨hmem, d, by rw [addRef, hsome], hbares⟩

theorem foldlM_addRef (refs : Table String) (e : Element) :
    (∃ id, refs.keys.find? (fun id => some id ∉ e.ids) = some id ∧ refs.foldlM t.addRef e = .error (t.missing id)) ∨
      refs.keys.find? (fun id => some id ∉ e.ids) = none ∧ ∃ d, refs.foldlM t.addRef e = .ok d ∧
        d.bares = e.bares.mapIdx fun i b => refs.foldl (refer e.ids i) b := by
  induction refs generalizing e with
  | nil =>
      refine .inr ⟨rfl, e, rfl, ?_⟩
      apply List.ext_getElem?
      simp
  | cons ref refs ih =>
      rw [List.foldlM_cons]
      rcases addRef_cases e ref with ⟨hmissing, hadd⟩ | ⟨hmem, d, hadd, hbares⟩
      · refine .inl ⟨ref.1, ?_, by rw [hadd]; rfl⟩
        simp [Table.keys, hmissing]
      · have hids := ids_eq_of_mapIdx hbares fun i b => id?_refer e.ids i b ref
        have hkeys : Table.keys (ref :: refs) = ref.1 :: Table.keys refs := rfl
        rw [hadd, hkeys, List.find?_cons_of_neg (by simpa using hmem), ← hids]
        rcases ih d with ⟨id, hfind, hfold⟩ | ⟨hfind, d', hfold, hbares'⟩
        · exact .inl ⟨id, hfind, hfold⟩
        · refine .inr ⟨hfind, d', hfold, ?_⟩
          rw [hbares', hbares, List.mapIdx_mapIdx, hids]
          rfl

theorem foldl_refer (refs : Table String) (ids : List (Option String)) (i : Nat) (b : Bare) :
    refs.foldl (refer ids i) b =
      match (refs.filter fun ref => ids.idxOf (some ref.1) = i).getLast? with
      | some ref => b.setAttribute "ref" (.expression ref.2)
      | none => b := by
  induction refs using List.reverseRecOn with
  | nil => rfl
  | append_singleton refs ref ih =>
      rw [List.foldl_append, ih, List.filter_append, List.getLast?_append]
      by_cases h : ids.idxOf (some ref.1) = i
      · cases (refs.filter fun ref => ids.idxOf (some ref.1) = i).getLast? with
        | none => simp [refer, h]
        | some ref' => simp [refer, h, Bare.setAttribute, Table.put_put]
      · simp [refer, h]

theorem id?_foldl_refer (refs : Table String) (ids : List (Option String)) (i : Nat) (b : Bare) :
    (refs.foldl (refer ids i) b).id? = b.id? := by
  induction refs generalizing b with
  | nil => rfl
  | cons ref refs ih => rw [List.foldl_cons, ih, id?_refer]

theorem mapIdx_of_actsAs {f : Element → Element} {edit : Bare → Bare} (h : Element.ActsAs f edit) (e : Element) :
    (f e).bares = e.bares.mapIdx fun i b => if i = 0 then edit b else b := by
  rw [h, Element.bares_eq, List.mapIdx_cons, if_pos rfl]
  congr 1
  apply List.ext_getElem?
  simp

end Steps

theorem placeChildren_cases (e : Element) :
    (∃ id, t.childrenIds.find? (fun id => some id ∉ e.ids) = some id ∧ t.placeChildren e = .error (t.missing id)) ∨
      t.childrenIds.find? (fun id => some id ∉ e.ids) = none ∧ ∃ d, t.placeChildren e = .ok d ∧
        d.bares = e.bares.mapIdx fun i b => if t.takesChildren e.ids i then
          { b with children := b.children ++ [.expression t.childrenExpression] } else b := by
  rw [placeChildren, childrenIds]
  cases htarget : t.children with
  | none =>
      refine .inr ⟨rfl, e, rfl, ?_⟩
      apply List.ext_getElem?
      simp [takesChildren, htarget]
  | some target =>
      cases target with
      | root =>
          refine .inr ⟨rfl, t.appendChildren e, rfl, ?_⟩
          rw [mapIdx_of_actsAs t.actsAs_appendChildren]
          simp [takesChildren, htarget]
      | element id =>
          rcases Element.update?_eq t.actsAs_appendChildren id e with ⟨hmissing, hnone⟩ | ⟨hmem, d, hsome, hbares⟩
          · exact .inl ⟨id, by simp [hmissing], by simp only [hnone]⟩
          · refine .inr ⟨by simp [hmem], d, by simp only [hsome], ?_⟩
            rw [hbares]
            simp [takesChildren, htarget]

mutual

theorem bares_objectifyStyles : ∀ e : Element,
    (objectifyStyles e).bares = e.bares.map fun b => { b with attributes := objectifyStyle b.attributes }
  | ⟨tag, attributes, spreads, children⟩ => by
    obtain ⟨hchildren, hbares⟩ := bares_objectifyChildren children
    rw [objectifyStyles, Element.bares_eq, Element.bares_eq, List.map_cons, hbares, Element.bare, hchildren]
    rfl

theorem bares_objectifyChildren : ∀ children : List (Child Element),
    (objectifyChildren children).map (Child.map fun _ => ()) = children.map (Child.map fun _ => ()) ∧
      Element.baresOfAll (objectifyChildren children) =
        (Element.baresOfAll children).map fun b => { b with attributes := objectifyStyle b.attributes }
  | [] => ⟨rfl, rfl⟩
  | .element e :: rest => by
    obtain ⟨hchildren, hbares⟩ := bares_objectifyChildren rest
    rw [objectifyChildren, List.map_cons, hchildren, Element.baresOfAll_element, Element.baresOfAll_element,
      List.map_append, bares_objectifyStyles e, hbares]
    exact ⟨rfl, rfl⟩
  | .text s :: rest => by
    obtain ⟨hchildren, hbares⟩ := bares_objectifyChildren rest
    rw [objectifyChildren, List.map_cons, hchildren, Element.baresOfAll_text, Element.baresOfAll_text, hbares]
    · exact ⟨rfl, rfl⟩
    · simp
  | .expression code :: rest => by
    obtain ⟨hchildren, hbares⟩ := bares_objectifyChildren rest
    rw [objectifyChildren, List.map_cons, hchildren, Element.baresOfAll_expression, Element.baresOfAll_expression,
      hbares]
    · exact ⟨rfl, rfl⟩
    · simp

end

theorem extractRoot_cases (document : Element) :
    (∃ id, t.root = some id ∧ t.root? document = none ∧ t.extractRoot document = .error (t.missing id)) ∨
      ∃ root, t.root? document = some root ∧ t.extractRoot document = .ok root := by
  rw [extractRoot, root?]
  cases t.root with
  | none => exact .inr ⟨document, rfl, rfl⟩
  | some id =>
      simp only [Element.find?_eq]
      cases document.parts.find? fun d => d.id? = some id with
      | none => exact .inl ⟨id, rfl, rfl, rfl⟩
      | some root => exact .inr ⟨root, rfl, rfl⟩

theorem edited_eq (ids : List (Option String)) (i : Nat) (b : Bare) :
    t.edited ids i b =
      let referred := t.refs.foldl (refer ids i) b
      let spread := if i = 0 then
        { referred with spreads := if t.passProps then referred.spreads ++ [t.propsExpression] else referred.spreads }
        else referred
      let placed := if t.takesChildren ids i then
        { spread with children := spread.children ++ [.expression t.childrenExpression] } else spread
      let classed := if i = 0 then { placed with attributes := t.classed placed.attributes } else placed
      { classed with attributes := objectifyStyle classed.attributes } := by
  rw [foldl_refer, edited, refAt?]
  generalize (t.refs.filter fun ref => ids.idxOf (some ref.1) = i).getLast? = ref
  generalize t.takesChildren ids i = takes
  cases ref <;> cases takes <;> by_cases hi : i = 0 <;> by_cases hprops : t.passProps <;>
    simp [hi, hprops, Bare.setAttribute]

theorem missing?_of_root {document root : Element} (h : t.root? document = some root) :
    t.missing? document = (t.refs.keys.find? fun id => some id ∉ root.ids).or
      (t.childrenIds.find? fun id => some id ∉ root.ids) := by
  rw [missing?, h]
  exact List.find?_append

theorem apply_of_root {document root : Element} (h : t.extractRoot document = .ok root) :
    t.apply document = t.refs.foldlM t.addRef root >>= fun d => t.placeChildren (t.spreadProps d) >>= fun d =>
      pure (objectifyStyles (t.addClass d)) := by
  rw [apply, h]
  rfl

theorem apply_cases (document : Element) :
    (∃ id, t.missing? document = some id ∧ t.apply document = .error (t.missing id)) ∨
      t.missing? document = none ∧ ∃ root result, t.root? document = some root ∧ t.apply document = .ok result ∧
        result.bares = root.bares.mapIdx (t.edited root.ids) := by
  rcases t.extractRoot_cases document with ⟨id, hid, hnone, hextract⟩ | ⟨root, hroot, hextract⟩
  · rw [missing?, hnone, apply, hextract]
    exact .inl ⟨id, hid, rfl⟩
  rw [t.missing?_of_root hroot, t.apply_of_root hextract]
  rcases foldlM_addRef t.refs root with ⟨id, hfind, hfold⟩ | ⟨hfind, d, hfold, hreferred⟩
  · rw [hfind, hfold]
    exact .inl ⟨id, rfl, rfl⟩
  have hspread := mapIdx_of_actsAs t.actsAs_spreadProps d
  have hids : (t.spreadProps d).ids = root.ids := by
    rw [ids_eq_of_mapIdx hspread, ids_eq_of_mapIdx hreferred]
    · exact fun i b => id?_foldl_refer t.refs root.ids i b
    · intro i b
      split <;> rfl
  have hplace := t.placeChildren_cases (t.spreadProps d)
  rw [hids] at hplace
  rw [hfind, hfold, Option.none_or]
  rcases hplace with ⟨id, hmissing, hplace⟩ | ⟨hfound, d', hplace, hplaced⟩
  · refine .inl ⟨id, hmissing, ?_⟩
    change (t.placeChildren (t.spreadProps d) >>= _) = _
    rw [hplace]
    rfl
  · refine .inr ⟨hfound, root, objectifyStyles (t.addClass d'), hroot, ?_, ?_⟩
    · change (t.placeChildren (t.spreadProps d) >>= _) = _
      rw [hplace]
      rfl
    · rw [bares_objectifyStyles, mapIdx_of_actsAs t.actsAs_addClass, hplaced, hspread, hreferred]
      apply List.ext_getElem?
      intro i
      simp only [List.getElem?_map, List.getElem?_mapIdx, Option.map_map]
      exact Option.map_congr fun b _ => (t.edited_eq root.ids i b).symm

theorem missing?_eq_none_iff (document : Element) :
    t.missing? document = none ↔ ∃ root, t.root? document = some root ∧
      ∀ id ∈ t.targets, ∃ d ∈ root.parts, d.id? = some id := by
  rcases t.extractRoot_cases document with ⟨id, hid, hnone, -⟩ | ⟨root, hroot, -⟩
  · rw [missing?, hnone, hid]
    simp
  · rw [missing?, hroot]
    simp [← Element.mem_ids_iff]

end Transcoding

/-- Markup that has a tree is written just when the id of the root, if one is given, names an element of the
sanitized document and all other ids name elements of that root; else the first id that names none is in the
error. What is written has the elements of the root, each with the edits that are meant for it and no others. -/
theorem transcode_edits_targets {raw : String} {document : Element} (h : Element.parse raw = .ok document)
    (t : Transcoding) :
    ((∃ jsx, (transcode raw t).map print = .ok jsx) ↔ ∃ root, t.root? (sanitize document) = some root ∧
      ∀ id ∈ t.targets, ∃ d ∈ root.parts, d.id? = some id) ∧
    (∀ error, (transcode raw t).map print = .error error ↔
      ∃ id, t.missing? (sanitize document) = some id ∧ error = .elementNotFound t.source id) ∧
    (∀ jsx, (transcode raw t).map print = .ok jsx → ∃ root result, t.root? (sanitize document) = some root ∧
      result.bares = root.bares.mapIdx (t.edited root.ids) ∧ jsx = print result) := by
  rw [← t.missing?_eq_none_iff, transcode, h]
  change ((∃ jsx, (t.apply (sanitize document)).map print = .ok jsx) ↔ _) ∧
    (∀ error, (t.apply (sanitize document)).map print = .error error ↔ _) ∧
    ∀ jsx, (t.apply (sanitize document)).map print = .ok jsx → _
  rcases t.apply_cases (sanitize document) with ⟨id, hmissing, happly⟩ | ⟨hnone, root, result, hroot, happly, hresult⟩
  · rw [happly, hmissing]
    refine ⟨by simp [Except.map], fun error => ?_, by simp [Except.map]⟩
    simp [Except.map, Transcoding.missing, eq_comm]
  · rw [happly, hnone]
    refine ⟨by simp [Except.map], by simp [Except.map], ?_⟩
    rintro jsx ⟨⟩
    exact ⟨root, result, hroot, hresult, rfl⟩

def twins : String := "<svg><g id=\"a\"/><g id=\"a\"/></svg>"

def toFirst : Transcoding where
  source := "1:2"
  refs := [("a", "groupRef")]
  children := some (.element "a")
  className := some "icon"

theorem transcode_edits_first_twin :
    ∃ document, Element.parse twins = .ok document ∧ ∃ result, (transcode twins toFirst).map print = .ok (print result) ∧
      result.bares =
        [⟨"svg", [("className", .literal "icon")], [], [.element (), .element ()]⟩,
          ⟨"g", [("id", .literal "a"), ("ref", .expression "groupRef")], [], [.expression "props.children"]⟩,
          ⟨"g", [("id", .literal "a")], [], []⟩] := by
  have hparse : Element.parse twins = .ok ⟨"svg", [], [], [.element ⟨"g", [("id", .literal "a")], [], []⟩,
      .element ⟨"g", [("id", .literal "a")], [], []⟩]⟩ := by decide +kernel
  obtain ⟨hwritten, -, hresult⟩ := transcode_edits_targets hparse toFirst
  obtain ⟨jsx, hjsx⟩ := hwritten.2 ⟨_, rfl, by decide +kernel⟩
  obtain ⟨root, result, hroot, hbares, rfl⟩ := hresult jsx hjsx
  cases hroot
  exact ⟨_, hparse, result, hjsx, hbares.trans (by decide +kernel)⟩

end DesignCompiler.Markup

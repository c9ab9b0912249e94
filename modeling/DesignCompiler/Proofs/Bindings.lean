import DesignCompiler.Output.Source
import DesignCompiler.Proofs.Threads

namespace DesignCompiler

open Step

variable {ctx : Context}

def Tag.expressions : Tag → List String
  | .opening _ (.middle h) => h.expressions
  | .fragment _ f => f.expressions
  | _ => []

namespace Node

variable (node : Node)

theorem expressions_attributes :
    (node.attributes.filter (·.1 ≠ "id")).map Prod.snd = (Params.value? "onClick" node.params).toList := by
  rw [attributes]
  cases Params.value? "onClick" node.params <;> cases Params.value? "id" node.params <;> rfl

theorem handler_mem_declarations {prop : String} (h : Params.value? "onClick" node.params = some prop) :
    prop ∈ Table.keys node.declarations := by
  have hdeclared : (prop, mouseHandlerType) ∈ node.declarations := by
    simp [declarations, declaration, h]
  exact List.mem_map_of_mem hdeclared

theorem expressions_written {number : Nat} {attributes : Table String} {classes : List ClassName}
    {f : Fragment} (hf : f ∈ node.written number attributes classes) :
    f.expressions ⊆ (attributes.filter (·.1 ≠ "id")).map Prod.snd := by
  rcases cases_of_mem_written hf with ⟨-, type, placeholder, rfl⟩ | ⟨rule, -, piece, rfl⟩
  · exact List.Subset.refl _
  · rw [(piece.fragment_spec rule).2.2.2]
    exact List.nil_subset _

end Node

namespace Rendered.Composed

variable {inside : Bool} {node : Node} {s u t : Scope} {i : Import} {w : Work} {v : Visit} {d : Rendered}

theorem props_eq (h : d.Composed ctx inside node s i w v u t) :
    t.props = Table.putAll node.declarations s.props := by
  have hstyles : ∀ styles : List StyleMap,
      (styles.map Scope.Entry.style).filterMap Scope.Entry.property? = [] := by
    intro styles
    simp [List.filterMap_map, Scope.Entry.property?]
  rw [h.addAll_eq, Scope.props_addAll, List.filterMap_append, ctx.properties_entries, hstyles,
    List.append_nil]

theorem mem_keys_of_expressions (h : d.Composed ctx inside node s i w v u t) {tag : Tag}
    (ht : tag ∈ d.head ++ d.foot) {prop : String} (hprop : prop ∈ tag.expressions) :
    prop ∈ t.props.keys := by
  have hhandler : prop ∈ (node.attributes.filter (·.1 ≠ "id")).map Prod.snd → prop ∈ t.props.keys := by
    intro hread
    rw [node.expressions_attributes, Option.mem_toList] at hread
    rw [h.props_eq, Table.mem_keys_putAll]
    exact .inl (node.handler_mem_declarations hread)
  rcases Rendered.mem_head_foot_iff.1 ht with ⟨wrapper, hw, rfl⟩ | ⟨f, hf, rfl⟩ | ⟨wrapper, hw, rfl⟩
  · cases wrapper with
    | outer r => cases hprop
    | inner r => cases hprop
    | middle head =>
        obtain rfl := Rendered.eq_middle_of_mem_wrappers hw
        refine hhandler ?_
        change prop ∈ d.middle.expressions at hprop
        rw [h.middle_eq, Head.expressions] at hprop
        dsimp only at hprop
        split at hprop
        · cases hprop
        · exact hprop
  · rw [h.prelude_eq, h.content_eq, ← List.append_assoc, List.mem_append] at hf
    rcases hf with hf | hf
    · have hfits := (h.stands.fragments f hf).expressions prop hprop
      exact h.grows_wrappers.props (h.grows_text.props hfits)
    · exact hhandler (node.expressions_written hf hprop)
  · cases hprop

end Rendered.Composed

def Context.declarations (ctx : Context) (j : Nat) : List (String × String) :=
  (ctx.forest.get? j).elim [] Node.declarations

theorem Context.Threads.props_eq (hp : ctx.plugins = {}) {inside : Bool} {s t : Scope} {rs : List Rendered}
    (h : ctx.Threads inside s rs t) :
    t.props = Table.putAll ((rs.flatMap Rendered.nodes).flatMap ctx.declarations) s.props := by
  have happend : ∀ (es fs : List (String × String)) (props : Table String),
      Table.putAll (es ++ fs) props = Table.putAll fs (Table.putAll es props) :=
    fun _ _ _ => List.foldl_append
  induction h with
  | nil => rfl
  | @cons inside node s u t t' t'' v d rs found enters below beside ihbelow ihbeside =>
      obtain ⟨i, w, hd⟩ := enters.exists_composed hp
      have hown : ctx.declarations d.node = node.declarations := by
        rw [Context.declarations, found]
        rfl
      rw [ihbeside, ihbelow, hd.props_eq, List.flatMap_cons, Rendered.nodes_eq, List.cons_append,
        List.flatMap_cons, hown, List.flatMap_append, happend, happend]

namespace Output.ComponentText

variable (c : ComponentText) (o : Options)

structure Binds (prop : String) : Prop where
  destructured : ∃ before after, c.props.keys = before ++ prop :: after ∧
    c.destructuring = "\tconst " ++ spaced (", ".intercalate (before ++ prop :: after)) ++ " = props;\n"
  typed : ∃ type before after, (prop, type) ∈ c.props ∧
    c.propsType = before ++ (prop ++ "?: " ++ type ++ "; ") ++ after
  stated : ∃ before between after, c.source o = before ++ c.propsType ++ between ++ c.destructuring ++ after

theorem binds_of_mem_keys {prop : String} (h : prop ∈ c.props.keys) : c.Binds o prop where
  destructured := by
    obtain ⟨before, after, hkeys⟩ := List.append_of_mem h
    have hsome : c.props.isEmpty = false := by
      rw [List.isEmpty_eq_false_iff]
      rintro hnil
      rw [hnil] at h
      cases h
    refine ⟨before, after, hkeys, ?_⟩
    rw [destructuring, hsome, hkeys]
    rfl
  typed := by
    obtain ⟨⟨name, type⟩, hmem, rfl⟩ := List.mem_map.1 h
    obtain ⟨before, after, hprops⟩ := List.append_of_mem hmem
    let field : String × String → String := fun e => e.1 ++ "?: " ++ e.2 ++ "; "
    refine ⟨type, "\x7b nodeId?: string; " ++ String.join (before.map field),
      String.join (after.map field) ++ "\x7d", hmem, ?_⟩
    unfold propsType
    simp only [hprops, field, List.map_append, List.map_cons, String.join_append, String.join_cons,
      String.append_assoc]
  stated := by
    refine ⟨c.header o ++ "\n" ++ "export const " ++ c.instanceName ++ ": React.FC<",
      "> = " ++ o.decorator ++ "(props => \x7b\n",
      "\treturn (\n\t\t<>\n" ++ indented c.markup ++ "\n\t\t\t<style jsx>\x7b`\n" ++
        Text.template c.styles ++ "\n`\x7d</style>\n\t\t</>\n\t);\n\x7d);\n", ?_⟩
    unfold source body
    simp only [String.append_assoc]

end Output.ComponentText

/-- Whatever a nested build does, and whether it succeeds, it leaves the properties of the component around
it alone. -/
theorem props_drawNested (build : Registering Component) (w : Work) (q : Registry) :
    (exec (drawNested ctx (some build)) (w, q)).2.1.scope.props = w.scope.props := by
  rw [exec_drawNested_some]
  split
  · rcases exec build q with ⟨e | c, r⟩ <;> rfl
  · unfold Work.addDescription
    split <;> rfl

/-- Every property that a tag of a component reads is declared and bound in the generated source. The
component declares just what the nodes in it do, one after another, and nothing of what the components in
it declare. -/
theorem declared_of_build (hp : ctx.plugins = {}) {o : Options} {canvas : SceneNode}
    (hf : ctx.forest = (NormalizedScene.ofCanvas o canvas).forest) {i : Nat} {c : Component}
    {r s : Registry} (hr : r.Reachable ctx) (h : exec (buildComponent ctx i) r = (.ok c, s)) :
    c.markup = Tag.print c.scope.classPrefix c.body.tags ∧
      (∀ tag ∈ c.body.tags, ∀ prop ∈ tag.expressions, prop ∈ c.scope.props.keys ∧
        ∀ o, (Output.ComponentText.ofComponent c).Binds o prop) ∧
      c.scope.props = Table.ofList (c.body.nodes.flatMap ctx.declarations) ∧
      ∀ (build : Registering Component) (w : Work) (q : Registry),
        (exec (drawNested ctx (some build)) (w, q)).2.1.scope.props = w.scope.props := by
  have ht : ctx.forest.Tidy := hf ▸ NormalizedScene.tidy_ofCanvas o canvas
  have hdrawn := isDrawn_of_build hr h
  refine ⟨Rendered.print_eq .., ?_, ?_, props_drawNested⟩
  · intro tag htag prop hprop
    obtain ⟨d, hd, htag⟩ := Rendered.mem_tags_iff.1 htag
    obtain ⟨_, _, _, _, _, _, _, _, -, -, hcomposed, hgrows⟩ := hdrawn.exists_composed hp ht hd
    have hkey := hgrows.props (hcomposed.mem_keys_of_expressions htag hprop)
    exact ⟨hkey, fun o => (Output.ComponentText.ofComponent c).binds_of_mem_keys o hkey⟩
  · obtain ⟨_, -, hthreads⟩ := hdrawn.exists_threads hp ht
    rw [hthreads.props_eq hp, List.flatMap_singleton]
    rfl

def cardWithField : Context where
  forest := (NormalizedScene.ofCanvas {}
    { attrs := { id := "0:0", name := "Page", kind := .canvas }
      children :=
        [{ attrs := { id := "1", name := "#Card??ifTrue=show" }
           children :=
            [{ attrs := { id := "2", name := "field??input&onClick=edit", kind := .text
                          constraints := some ⟨.left, .bottom⟩, characters := some "Name" } },
              { attrs := { id := "3", name := "#Badge??content=count" } }] }] }).forest
  options := {}
  resources := {}
  descriptions := []

theorem reads_build_cardWithField :
    (exec (buildComponent cardWithField 0) {}).1.toOption.map (fun c =>
      (c.body.nodes, c.body.tags.flatMap Tag.expressions)) =
        some ([0, 2, 1], ["show", "count", "edit"]) := by
  decide +kernel

theorem declared_cardWithField :
    ∃ c s, exec (buildComponent cardWithField 0) {} = (.ok c, s) ∧
      c.body.tags.flatMap Tag.expressions = ["show", "count", "edit"] ∧
      c.scope.props = [("show", "any"), ("count", "any"), ("edit", "React.MouseEventHandler<HTMLElement>")] ∧
      ∀ prop ∈ ["show", "count", "edit"], (Output.ComponentText.ofComponent c).Binds {} prop := by
  have hreads := reads_build_cardWithField
  rcases hc : (exec (buildComponent cardWithField 0) {}).1 with e | c <;> rw [hc] at hreads
  · cases hreads
  · obtain ⟨hnodes, hexpressions⟩ : c.body.nodes = [0, 2, 1] ∧
        c.body.tags.flatMap Tag.expressions = ["show", "count", "edit"] :=
      Prod.mk.inj (Option.some.inj hreads)
    obtain ⟨-, hdeclared, hprops, -⟩ := declared_of_build rfl rfl .empty (Prod.ext hc rfl)
    refine ⟨c, _, Prod.ext hc rfl, hexpressions, ?_, fun prop hprop => ?_⟩
    · rw [hprops, hnodes]
      decide +kernel
    · rw [← hexpressions] at hprop
      obtain ⟨tag, htag, hprop⟩ := List.mem_flatMap.1 hprop
      exact (hdeclared tag htag prop hprop).2 {}

end DesignCompiler

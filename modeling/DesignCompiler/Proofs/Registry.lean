import Mathlib.Data.List.Nodup
import DesignCompiler.Component.Context
import DesignCompiler.Component.Registry
import DesignCompiler.Proofs.Step

namespace DesignCompiler

open Step

structure Component.IsNamed (suffix name : String) (c : Component) : Prop where
  name_eq : c.name = name
  instance_eq : c.instanceName = componentInstance name suffix
  file_eq : c.fileName = fileStem name

namespace Registry

def opened (name : String) (r : Registry) : Registry := { r with building := r.building ++ [name] }

def closed (name : String) (r : Registry) : Registry :=
  { r with building := r.building.filter (· ≠ name) }

def stored (name : String) (c : Component) (r : Registry) : Registry :=
  { r with components := Table.put name c r.components }

theorem exec_buildOnce (name : String) (build : Registering Component) (r : Registry) :
    exec (buildOnce name build) r =
      match r.components.lookup name with
      | some c => (.ok c, r)
      | none =>
        if name ∈ r.building then (.error (.compile (.recursiveComponent name)), r)
        else
          match exec build (r.opened name) with
          | (.ok c, s) => (.ok c, (s.closed name).stored name c)
          | (.error e, s) => (.error e, s.closed name) := by
  rw [buildOnce, exec_bind]
  change exec _ r = _
  cases hl : r.components.lookup name with
  | some c => rfl
  | none =>
      by_cases hb : name ∈ r.building
      · simp only [hb, if_true]
        rfl
      · simp only [hb, if_false]
        rw [exec_bind]
        change exec (ExceptT.lift build.run >>= _) (r.opened name) = _
        rw [exec_bind, exec_lift_run]
        rcases exec build (r.opened name) with ⟨_ | c, s⟩ <;> rfl

/-- No name is built and being built, or twice the one or the other. -/
structure Sound (suffix : String) (r : Registry) : Prop where
  named : ∀ e ∈ r.components, e.2.IsNamed suffix e.1
  nodup_keys : r.components.keys.Nodup
  nodup_building : r.building.Nodup
  disjoint : ∀ name ∈ r.building, name ∉ r.components.keys

theorem Sound.empty (suffix : String) : Sound suffix {} where
  named := by simp
  nodup_keys := List.nodup_nil
  nodup_building := List.nodup_nil
  disjoint := by simp

/-- What a run of builds keeps, whether it fails or not. -/
def Extends (suffix : String) (r s : Registry) : Prop :=
  r.Sound suffix → s.Sound suffix ∧ s.building = r.building ∧ r.components <+: s.components

instance (suffix : String) : IsPreorder Registry (Extends suffix) where
  refl r hr := ⟨hr, rfl, List.prefix_rfl⟩
  trans r s t hrs hst hr := by
    obtain ⟨hs, hb, hc⟩ := hrs hr
    obtain ⟨ht, hb', hc'⟩ := hst hs
    exact ⟨ht, hb'.trans hb, hc.trans hc'⟩

theorem Sound.opened {suffix name : String} {r : Registry} (h : r.Sound suffix)
    (hc : name ∉ r.components.keys) (hb : name ∉ r.building) : (r.opened name).Sound suffix where
  named := h.named
  nodup_keys := h.nodup_keys
  nodup_building := by
    rw [Registry.opened, ← List.concat_eq_append]
    exact h.nodup_building.concat hb
  disjoint := by
    intro n hn
    rcases List.mem_append.1 hn with hn | hn
    · exact h.disjoint n hn
    · rwa [List.mem_singleton.1 hn]

theorem Sound.closed {suffix : String} {r : Registry} (h : r.Sound suffix) (name : String) :
    (r.closed name).Sound suffix where
  named := h.named
  nodup_keys := h.nodup_keys
  nodup_building := h.nodup_building.filter _
  disjoint n hn := h.disjoint n (List.mem_filter.1 hn).1

theorem Sound.stored {suffix name : String} {r : Registry} {c : Component} (h : r.Sound suffix)
    (hc : name ∉ r.components.keys) (hb : name ∉ r.building) (hn : c.IsNamed suffix name) :
    (r.stored name c).Sound suffix where
  named := by
    intro e he
    rw [Registry.stored, Table.put_of_notMem hc] at he
    rcases List.mem_append.1 he with he | he
    · exact h.named e he
    · rwa [List.mem_singleton.1 he]
  nodup_keys := by
    rw [Registry.stored, Table.keys_put, if_neg hc, ← List.concat_eq_append]
    exact h.nodup_keys.concat hc
  nodup_building := h.nodup_building
  disjoint := by
    intro n hn
    rw [Registry.stored, Table.keys_put, if_neg hc]
    have hne : n ≠ name := fun he => hb (he ▸ hn)
    simpa [hne] using h.disjoint n hn

theorem closed_building_of_opened {name : String} {r s : Registry} (hb : name ∉ r.building)
    (h : s.building = (r.opened name).building) : (s.closed name).building = r.building := by
  have hf : r.building.filter (· ≠ name) = r.building := by
    refine List.filter_eq_self.2 fun n hn => decide_eq_true ?_
    rintro rfl
    exact hb hn
  simp only [closed, h, opened, List.filter_append, hf]
  simp

/-- A build that extends the registry in which its name is open extends the registry around it. -/
theorem keeps_buildOnce {suffix name : String} {build : Registering Component}
    (hk : Keeps (Extends suffix) build)
    (hn : ∀ r c s, exec build r = (.ok c, s) → c.IsNamed suffix name) :
    Keeps (Extends suffix) (buildOnce name build) := by
  intro r hr
  rw [exec_buildOnce]
  split
  · exact ⟨hr, rfl, List.prefix_rfl⟩
  · next hl =>
    have hc := Table.lookup_eq_none.1 hl
    split
    · exact ⟨hr, rfl, List.prefix_rfl⟩
    · next hb =>
      obtain ⟨hs, hsb, hp⟩ := hk _ (hr.opened hc hb)
      rcases h : exec build (r.opened name) with ⟨e | c, s⟩ <;> rw [h] at hs hsb hp
      · exact ⟨hs.closed name, closed_building_of_opened hb hsb, hp⟩
      · have hcs : name ∉ s.components.keys := hs.disjoint name (by rw [hsb]; simp [opened])
        have hclosed := closed_building_of_opened hb hsb
        refine ⟨(hs.closed name).stored hcs (by simp [closed]) (hn _ _ _ h), hclosed, ?_⟩
        exact hp.trans (by simp [stored, closed, Table.put_of_notMem hcs])

/-- What a build answers is what the registry holds under its name afterwards. -/
theorem lookup_of_exec_buildOnce {name : String} {build : Registering Component} {c : Component}
    {r s : Registry} (h : exec (buildOnce name build) r = (.ok c, s)) :
    s.components.lookup name = some c := by
  rw [exec_buildOnce] at h
  split at h
  · next c' hl =>
    cases h
    exact hl
  · split at h
    · cases h
    · split at h
      · cases h
        exact Table.lookup_put_self ..
      · cases h

theorem exec_buildOnce_of_lookup {name : String} {build : Registering Component} {c : Component}
    {r : Registry} (h : r.components.lookup name = some c) :
    exec (buildOnce name build) r = (.ok c, r) := by
  rw [exec_buildOnce, h]

end Registry

end DesignCompiler

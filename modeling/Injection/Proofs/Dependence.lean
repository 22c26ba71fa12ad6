import Injection.Proofs.Hierarchy
import Injection.Proofs.Selection
import Mathlib.Data.List.Perm.Subperm

/-!
# Which bindings depend on which

Without factories, what a definition requests is served by whatever is stored nearest to the
component that stores the definition, so the stored bindings of a hierarchy form a graph. The path of
a request is a walk through this graph: every key on it was served by a stored binding whose
definition made the next request. On a path that passes no site twice there are at most as many keys
as there are stored bindings.
-/

namespace Injection

variable {V E : Type}

namespace World

/-- No component falls back on factories. -/
def Explicit (w : World V E) : Prop := ∀ c, (w.config c).factories = []

/-- A stored binding depends on the one that is found, at its owner, for a key that it asks for. -/
def DependsOn (w : World V E) (asks : Stored V E → Key → Prop) (stored other : Stored V E) : Prop :=
  ∃ key, asks stored key ∧ w.found? key stored.owner = some other

/-- One stored binding leads to another along dependencies, or is the other. -/
abbrev LeadsTo (w : World V E) (asks : Stored V E → Key → Prop) : Stored V E → Stored V E → Prop :=
  Relation.ReflTransGen (w.DependsOn asks)

/-- A key comes to be requested at a component on a path, on behalf of a request at the top: what was
found for the last key of the path asks for it. -/
inductive Trail (w : World V E) (asks : Stored V E → Key → Prop) (c₀ : ComponentId) (k₀ : Key) :
    List Key → ComponentId → Key → Prop
  | top : Trail w asks c₀ k₀ [] c₀ k₀
  | next {path : List Key} {c : ComponentId} {key wanted : Key} {stored : Stored V E} :
    Trail w asks c₀ k₀ path c key → w.found? key c = some stored → asks stored wanted →
      Trail w asks c₀ k₀ (path ++ [key]) stored.owner wanted

/-- The sites of all stored bindings. -/
def boundSites (w : World V E) : List Site :=
  (w.components.flatMap Component.bindings).map fun binding => binding.key.site

variable {w : World V E} {c c₀ : ComponentId} {key k₀ : Key} {path : List Key} {stored : Stored V E}
  {asks : Stored V E → Key → Prop}

/-- What is found is stored where it is found, for the site of the key. -/
theorem mem_of_found? (h : w.found? key c = some stored) :
    stored.binding ∈ w.bindings stored.owner ∧ stored.binding.key.site = key.site :=
  mem_of_serving? (found?_above (.refl w) h).2

/-- The sites of all stored bindings are among the bound sites. -/
theorem site_mem_boundSites {binding : Binding V E} (h : binding ∈ w.bindings c) :
    binding.key.site ∈ w.boundSites := by
  unfold World.bindings at h
  cases hc : w.component? c with
  | none => simp [hc] at h
  | some component =>
    have hbinding : binding ∈ component.bindings := by simpa [hc] using h
    have hcomponent : component ∈ w.components := List.mem_of_getElem? hc
    exact List.mem_map_of_mem (List.mem_flatMap.mpr ⟨component, hcomponent, hbinding⟩)

/-- What is found at the end of a trail is what the request at the top is served by, or what that
leads to. -/
theorem Trail.leadsTo (h : w.Trail asks c₀ k₀ path c key) (hfound : w.found? key c = some stored) :
    ∃ start, w.found? k₀ c₀ = some start ∧ w.LeadsTo asks start stored := by
  induction h generalizing stored with
  | top => exact ⟨stored, hfound, .refl⟩
  | next _ hserved hasks ih =>
    obtain ⟨start, hstart, hleads⟩ := ih hserved
    exact ⟨start, hstart, hleads.tail ⟨_, hasks, hfound⟩⟩

/-- A key is requested at the top, or asked for by what that leads to. -/
theorem Trail.asked (h : w.Trail asks c₀ k₀ path c key) :
    (path = [] ∧ c = c₀ ∧ key = k₀) ∨ ∃ start stored, w.found? k₀ c₀ = some start ∧
      w.LeadsTo asks start stored ∧ stored.owner = c ∧ asks stored key := by
  cases h with
  | top => exact Or.inl ⟨rfl, rfl, rfl⟩
  | next htrail hserved hasks =>
    obtain ⟨start, hstart, hleads⟩ := htrail.leadsTo hserved
    exact Or.inr ⟨start, _, hstart, hleads, rfl, hasks⟩

/-- Every key on the path of a trail was served by a stored binding that leads to the one that asks. -/
theorem Trail.visited (h : w.Trail asks c₀ k₀ path c key) {visited : Key} (hvisited : visited ∈ path) :
    ∃ start stored last, w.found? k₀ c₀ = some start ∧ w.LeadsTo asks start stored ∧
      stored.binding ∈ w.bindings stored.owner ∧ stored.binding.key.site = visited.site ∧
        w.LeadsTo asks stored last ∧ last.owner = c ∧ asks last key := by
  induction h with
  | top => cases hvisited
  | @next path c before wanted served htrail hserved hasks ih =>
    rcases List.mem_append.mp hvisited with hearlier | hlast
    · obtain ⟨start, stored, last, hstart, hleads, hmem, hsite, hlast, rfl, hbefore⟩ := ih hearlier
      exact ⟨start, stored, served, hstart, hleads, hmem, hsite, hlast.tail ⟨before, hbefore, hserved⟩, rfl, hasks⟩
    · obtain rfl := List.mem_singleton.mp hlast
      obtain ⟨start, hstart, hleads⟩ := htrail.leadsTo hserved
      obtain ⟨hmem, hsite⟩ := mem_of_found? hserved
      exact ⟨start, served, served, hstart, hleads, hmem, hsite, .refl, rfl, hasks⟩

/-- A path that comes back to a site: its last key, which is asked for by what a binding for its site
leads to, is one for a site that it passed before. -/
def Looped (w : World V E) (asks : Stored V E → Key → Prop) (c₀ : ComponentId) (k₀ : Key) (path : List Key) : Prop :=
  ∃ before key start stored last, path = before ++ [key] ∧ (∃ visited ∈ before, visited.site = key.site) ∧
    w.found? k₀ c₀ = some start ∧ w.LeadsTo asks start stored ∧ stored.binding ∈ w.bindings stored.owner ∧
      stored.binding.key.site = key.site ∧ w.LeadsTo asks stored last ∧ asks last key

/-- The path of a trail that comes back to one of its sites. -/
theorem Trail.looped (h : w.Trail asks c₀ k₀ path c key) {visited : Key} (hvisited : visited ∈ path)
    (hsite : visited.site = key.site) : w.Looped asks c₀ k₀ (path ++ [key]) := by
  obtain ⟨start, stored, last, hstart, hleads, hmem, hstored, hlast, -, hasks⟩ := h.visited hvisited
  exact ⟨path, key, start, stored, last, rfl, ⟨visited, hvisited, hsite⟩, hstart, hleads, hmem, hstored.trans hsite,
    hlast, hasks⟩

/-- Nothing that a stored binding leads to depends on itself. -/
def Acyclic (w : World V E) (asks : Stored V E → Key → Prop) (start : Stored V E) : Prop :=
  ∀ stored, w.LeadsTo asks start stored → ¬Relation.TransGen (w.DependsOn asks) stored stored

/-- Dependencies that go down in rank are acyclic. -/
theorem acyclic_of_rank {start : Stored V E} (rank : Stored V E → Nat)
    (h : ∀ stored other, w.LeadsTo asks start stored → w.DependsOn asks stored other → rank other < rank stored) :
    w.Acyclic asks start := by
  intro stored hleads hcycle
  have hdown {other : Stored V E} (hpath : Relation.TransGen (w.DependsOn asks) stored other) :
      rank other < rank stored := by
    induction hpath with
    | single hdepends => exact h _ _ hleads hdepends
    | tail hpath hdepends ih => exact Nat.lt_trans (h _ _ (hleads.trans hpath.to_reflTransGen) hdepends) ih
  exact Nat.lt_irrefl _ (hdown hcycle)

/-- A path that passes no site twice is no longer than there are stored bindings. -/
theorem Trail.length_le (h : w.Trail asks c₀ k₀ path c key) (hnodup : (path.map Key.site).Nodup) :
    path.length ≤ w.boundSites.length := by
  have hsubset : path.map Key.site ⊆ w.boundSites := by
    intro site hsite
    obtain ⟨visited, hvisited, rfl⟩ := List.mem_map.mp hsite
    obtain ⟨-, stored, -, -, -, hmem, hstored, -⟩ := h.visited hvisited
    exact hstored ▸ site_mem_boundSites hmem
  calc
    path.length = (path.map Key.site).length := by simp
    _ ≤ w.boundSites.length := (List.subperm_of_subset hnodup hsubset).length_le

end World

end Injection

import Injection.Proofs.Sequence
import Mathlib.Data.List.Nodup

/-!
# Hierarchies as they are built

Modules, however they are put together, hold at most one binding per key, and so do the components
that are built from them. Components are built after their parents. What is stored later on keeps
the keys of a component distinct, so a component's bindings are a map from keys to bindings at all
times.
-/

namespace Injection

variable {V E : Type}

/-- In a list of things with distinct keys, the first with the key of one of them is that one. -/
theorem find?_of_nodup_map {α κ : Type} [DecidableEq κ] {key : α → κ} {l : List α}
    (h : (l.map key).Nodup) {a : α} (ha : a ∈ l) : l.find? (fun b => key b = key a) = some a := by
  induction l with
  | nil => cases ha
  | cons first rest ih =>
    rw [List.map_cons, List.nodup_cons] at h
    rcases List.mem_cons.mp ha with rfl | hrest
    · simp
    · have hne : key first ≠ key a := fun heq => h.1 (heq ▸ List.mem_map_of_mem hrest)
      rw [List.find?_cons_of_neg (by simpa using hne)]
      exact ih h.2 hrest

/-- Keys stay distinct if something with a new key is added. -/
theorem nodup_map_concat {α κ : Type} {key : α → κ} {l : List α} {a : α} (h : (l.map key).Nodup)
    (ha : ∀ b ∈ l, key b ≠ key a) : ((l ++ [a]).map key).Nodup := by
  rw [List.map_append, List.nodup_append]
  refine ⟨h, List.nodup_singleton _, ?_⟩
  intro k hk k' hk'
  obtain ⟨b, hb, rfl⟩ := List.mem_map.mp hk
  exact List.mem_singleton.mp hk' ▸ ha b hb

/-! ### Modules -/

/-- Every place of a module has a key of its own, which is the key of the binding at the place. -/
structure Module.Keyed (m : Module V E) : Prop where
  keys : ∀ entry ∈ m.entries, entry.binding.key.identity = entry.registered.identity
  distinct : (m.entries.map fun entry => entry.registered.identity).Nodup

namespace Module

variable {m other : Module V E}

/-- The empty module has no key twice. -/
theorem keyed_empty : (empty : Module V E).Keyed := ⟨by simp [empty], by simp [empty]⟩

/-- The bindings of a module have distinct keys. -/
theorem Keyed.bindings (h : m.Keyed) : (m.bindings.map fun binding => binding.key.identity).Nodup := by
  rw [Module.bindings, List.map_map, List.map_congr_left (g := fun entry => entry.registered.identity) h.keys]
  exact h.distinct

/-- A binding takes a free place or the place of its own key. -/
theorem Keyed.bind (h : m.Keyed) (binding : Binding V E) : (m.bind binding).2.Keyed := by
  unfold Module.bind
  cases hfind : m.find? binding.key with
  | none =>
    have hfree : ∀ entry ∈ m.entries, entry.registered.identity ≠ binding.key.identity := by
      simpa [Module.find?] using hfind
    refine ⟨fun entry hentry => ?_, ?_⟩
    · rcases List.mem_append.mp hentry with hentry | hentry
      · exact h.keys entry hentry
      · rw [List.mem_singleton.mp hentry]
    · exact nodup_map_concat h.distinct hfree
  | some entry =>
    dsimp only
    split
    · refine ⟨fun entry hentry => ?_, ?_⟩
      · obtain ⟨before, hbefore, rfl⟩ := List.mem_map.mp hentry
        split
        · next hkey => exact hkey.symm
        · exact h.keys before hbefore
      · have hregistered : ∀ before : Entry V E,
            (if before.registered.identity = binding.key.identity then { before with binding }
              else before).registered.identity = before.registered.identity := by
          intro before
          split <;> rfl
        simp only [replace, List.map_map, Function.comp_def, hregistered]
        exact h.distinct
    · exact h

/-- Adding bindings to a module keeps its keys distinct, even if one is refused partway. -/
theorem Keyed.bindAll (h : m.Keyed) (bindings : List (Binding V E)) :
    (Module.bindAll bindings m).2.Keyed := by
  induction bindings generalizing m with
  | nil => exact h
  | cons binding rest ih =>
    have hbind := h.bind binding
    unfold Module.bindAll
    split
    · next hbound => exact ih (by simpa [hbound] using hbind)
    · next hrefused => simpa [hrefused] using hbind

/-- Whatever the other module is like, its bindings are registered one by one. -/
theorem Keyed.merge (h : m.Keyed) (other : Module V E) : (m.merge other).2.Keyed := h.bindAll other.bindings

/-- So does declaring them. -/
theorem Keyed.declareAll (h : m.Keyed) {declarations : List (Declaration V E)} {surroundings : E}
    (hbuilt : (Module.declareAll declarations m surroundings).1 = .ok other) : other.Keyed := by
  induction declarations generalizing m surroundings with
  | nil => exact Except.ok.inj hbuilt ▸ h
  | cons declaration rest ih =>
    have hdeclare : (m.declare declaration surroundings).1.2.Keyed := by
      unfold Module.declare
      split
      · exact h.bind _
      · exact h.bind _
    unfold Module.declareAll at hbuilt
    split at hbuilt
    · next hbound => exact ih (by simpa [hbound] using hdeclare) hbuilt
    · simp at hbuilt

/-- Modules that are built from declarations are keyed. -/
theorem keyed_build {declarations : List (Declaration V E)} {surroundings : E}
    (hbuilt : (build declarations surroundings).1 = .ok m) : m.Keyed :=
  keyed_empty.declareAll hbuilt

end Module

/-- So does merging modules into one. -/
theorem ComponentBuilder.keyed_mergeModules {merged m : Module V E} {modules : List (Module V E)}
    (h : merged.Keyed) (hmerge : mergeModules merged modules = .ok m) : m.Keyed := by
  induction modules generalizing merged with
  | nil => exact Except.ok.inj hmerge ▸ h
  | cons other rest ih =>
    unfold mergeModules at hmerge
    have hmerged := h.merge other
    split at hmerge
    · next hbound => exact ih (by simpa [hbound] using hmerged) hmerge
    · simp at hmerge

/-- A component is built from a keyed registry, if the modules are keyed that it is built from. -/
theorem ComponentBuilder.keyed_registry {b : ComponentBuilder V E} {m : Module V E}
    (h : ∀ source ∈ b.modules, source.Keyed) (hregistry : b.registry = .ok m) : m.Keyed := by
  have hfirst : (b.modules.headD .empty).Keyed := by
    cases hmodules : b.modules with
    | nil => exact Module.keyed_empty
    | cons first rest => exact h first (hmodules ▸ List.mem_cons_self)
  simp only [registry, bind, Except.bind] at hregistry
  cases hmerge : mergeModules (b.modules.headD .empty) b.modules.tail with
  | error e =>
    rw [hmerge] at hregistry
    contradiction
  | ok merged =>
    have hbound := (keyed_mergeModules hfirst hmerge).bindAll b.bindings
    rw [hmerge] at hregistry
    dsimp only at hregistry
    split at hregistry
    · next hall =>
      rw [hall] at hbound
      exact Except.ok.inj hregistry ▸ hbound
    · simp at hregistry

/-! ### Worlds -/

namespace World

variable {w w' : World V E}

/-- The bindings of every component have distinct keys. -/
def Keyed (w : World V E) : Prop :=
  ∀ c, ((w.bindings c).map fun binding => binding.key.identity).Nodup

/-- Every stored binding is the one under its key. -/
theorem Keyed.binding? (h : w.Keyed) {c : ComponentId} {binding : Binding V E}
    (hbinding : binding ∈ w.bindings c) : w.binding? c binding.key.identity = some binding := by
  rw [binding?_eq_find?]
  exact find?_of_nodup_map (h c) hbinding

/-- What a component stores under a key is one binding. -/
theorem Keyed.eq_of_identity (h : w.Keyed) {stored other : Stored V E}
    (hstored : stored.binding ∈ w.bindings stored.owner) (hother : other.binding ∈ w.bindings other.owner)
    (howner : stored.owner = other.owner)
    (hidentity : stored.binding.key.identity = other.binding.key.identity) : stored = other := by
  obtain ⟨owner, binding⟩ := stored
  obtain ⟨owner', binding'⟩ := other
  obtain rfl : owner = owner' := howner
  have hbinding := h.binding? hstored
  rw [hidentity, h.binding? hother] at hbinding
  exact congrArg (Stored.mk owner) (Option.some.inj hbinding).symm

/-- Keys stay distinct where the components stay as they are. -/
theorem Keyed.of_components (h : w.Keyed) (hcomponents : w'.components = w.components) : w'.Keyed := by
  intro c
  rw [show w'.bindings c = w.bindings c by simp [World.bindings, component?, hcomponents]]
  exact h c

/-- The bindings of a component after one was stored, here or elsewhere. -/
theorem bindings_memoize (w : World V E) (c d : ComponentId) (binding : Binding V E) :
    (w.memoize c binding).bindings d = w.bindings d ∨
      d = c ∧ w.binding? d binding.key.identity = none ∧
        (w.memoize c binding).bindings d = w.bindings d ++ [binding] := by
  unfold memoize
  cases hfound : w.binding? c binding.key.identity with
  | some stored => exact Or.inl rfl
  | none =>
    simp only [World.bindings, component?_modifyComponent]
    cases hd : w.component? d with
    | none => exact Or.inl rfl
    | some component =>
      by_cases hcd : c = d
      · subst hcd
        exact Or.inr ⟨rfl, hfound, by simp⟩
      · exact Or.inl (by simp [hcd])

/-- A component that is dropped is not used any more, but it keeps its parts. -/
theorem parents_drop (w : World V E) (c d : ComponentId) : (w.drop c).parents d = w.parents d := by
  simp only [World.parents, World.drop, component?_modifyComponent]
  cases w.component? d <;> simp [apply_ite]

/-- Dropping a component changes nothing about what any component stores. -/
theorem bindings_drop (w : World V E) (c d : ComponentId) : (w.drop c).bindings d = w.bindings d := by
  simp only [World.bindings, World.drop, component?_modifyComponent]
  cases w.component? d <;> simp [apply_ite]

/-- Dropping a component changes nothing about how any component is configured. -/
theorem config_drop (w : World V E) (c d : ComponentId) : (w.drop c).config d = w.config d := by
  simp only [World.config, World.drop, component?_modifyComponent]
  cases w.component? d <;> simp [apply_ite]

/-- Keys stay distinct, since nothing is stored under a key that is taken. -/
theorem Keyed.memoize (h : w.Keyed) (c : ComponentId) (binding : Binding V E) :
    (w.memoize c binding).Keyed := by
  intro d
  rcases w.bindings_memoize c d binding with hsame | ⟨-, hfree, hadded⟩
  · rw [hsame]
    exact h d
  · rw [binding?_eq_find?] at hfree
    rw [hadded]
    refine nodup_map_concat (h d) fun other hother => ?_
    simpa using List.find?_eq_none.mp hfree other hother

/-- Components come after their parents and have distinct keys, and nothing has been made. -/
structure Pristine (w : World V E) : Prop where
  ordered : ∀ c, ∀ parent ∈ w.parents c, parent < c
  keyed : w.Keyed
  unused : ∀ slot, w.cells slot = .empty

/-- The world before anything is built is pristine. -/
theorem pristine_initial (surroundings : E) : (initial surroundings : World V E).Pristine where
  ordered c parent hparent := by simp [initial, World.parents, component?] at hparent
  keyed c := by simp [initial, World.bindings, component?]
  unused _ := rfl

/-- Components that come after their parents and have distinct keys make an unused world pristine. -/
theorem Pristine.of_components (surroundings : E) {components : List (Component V E)}
    (hordered : ∀ entry ∈ components.zipIdx, ∀ parent ∈ entry.1.parents, parent < entry.2)
    (hkeyed : ∀ component ∈ components, (component.bindings.map fun binding => binding.key.identity).Nodup) :
    Pristine { initial surroundings with components } where
  ordered c parent hparent := by
    simp only [World.parents, component?] at hparent
    cases hc : components[c]? with
    | none => simp [hc] at hparent
    | some component =>
      exact hordered (component, c) (List.mk_mem_zipIdx_iff_getElem?.mpr hc) parent (by simpa [hc] using hparent)
  keyed c := by
    simp only [World.bindings, component?]
    cases hc : components[c]? with
    | none => simp
    | some component => exact hkeyed component (List.mem_of_getElem? hc)
  unused _ := rfl

/-- The component at a place after one was added. -/
theorem component?_addComponent (w : World V E) (component : Component V E) (c : ComponentId) :
    (w.addComponent component).2.component? c =
      if c = w.components.length then some component else w.component? c := by
  unfold addComponent component?
  split
  · next hc => simp [hc]
  · next hc =>
    rcases Nat.lt_or_gt_of_ne hc with hlt | hgt
    · simp [List.getElem?_append_left hlt]
    · rw [List.getElem?_eq_none (by simp; omega), List.getElem?_eq_none (by omega)]

/-- A component may be added whose parents are there already. -/
theorem Pristine.addComponent (h : w.Pristine) {component : Component V E}
    (hparents : ∀ parent ∈ component.parents, parent < w.components.length)
    (hkeyed : (component.bindings.map fun binding => binding.key.identity).Nodup) :
    (w.addComponent component).2.Pristine where
  ordered c parent hparent := by
    simp only [World.parents, component?_addComponent] at hparent
    split at hparent
    · next hc => exact hc ▸ hparents parent hparent
    · exact h.ordered c parent hparent
  keyed c := by
    simp only [World.bindings, component?_addComponent]
    split
    · exact hkeyed
    · exact h.keyed c
  unused := h.unused

/-- A component that is built consists of what is registered, and is added to the world. -/
theorem build_eq_ok {b : ComponentBuilder V E} {c : ComponentId} (h : w.build b = .ok (c, w')) :
    ∃ m, b.registry = .ok m ∧ (w.addComponent (b.component m)).2 = w' := by
  unfold World.build at h
  cases hregistry : b.registry with
  | error e => simp [hregistry, Except.map] at h
  | ok m =>
    simp only [hregistry, Except.map, Except.ok.injEq] at h
    exact ⟨m, rfl, congrArg Prod.snd h⟩

/-- A builder adds such a component, given keyed modules and parents that are there already. -/
theorem Pristine.build (h : w.Pristine) {b : ComponentBuilder V E} {c : ComponentId}
    (hmodules : ∀ source ∈ b.modules, source.Keyed)
    (hparents : ∀ parent ∈ b.parents, parent < w.components.length)
    (hbuild : w.build b = .ok (c, w')) : w'.Pristine := by
  obtain ⟨m, hregistry, hadded⟩ := build_eq_ok hbuild
  rw [← hadded]
  apply h.addComponent
  · exact fun parent hparent => hparents parent (List.mem_reverse.mp hparent)
  · exact (ComponentBuilder.keyed_registry hmodules hregistry).bindings

end World

end Injection

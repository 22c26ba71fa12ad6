import Injection.Proofs.Ownership
import Injection.Proofs.Seclusion

/-!
# Requests are confined to a component and its ancestors

Hierarchies arise step by step: components are built below those that are there, dropped, and asked. As
long as what they are given keeps to its context and falls back only on catalogs, everything that they
ever store passes requests on at most to an ancestor. So a request at a component runs definitions of the
component and its ancestors only, changes nothing else, and does not depend on anything else.
-/

namespace Injection

variable {V E : Type}

/-! ### What components are built from -/

namespace Module

variable {P : Binding V E → Prop} {m : Module V E}

/-- What is true of all bindings of a module, and of one that is registered, is true of all afterwards. -/
theorem forall_bind (h : ∀ binding ∈ m.bindings, P binding) {binding : Binding V E} (hbinding : P binding) :
    ∀ other ∈ (m.bind binding).2.bindings, P other := by
  unfold Module.bind
  split
  · intro other hother
    simp only [Module.bindings, List.map_append, List.mem_append] at hother
    rcases hother with hother | hother
    · exact h other hother
    · exact List.mem_singleton.mp hother ▸ hbinding
  · split
    · intro other hother
      simp only [replace, Module.bindings, List.map_map, List.mem_map, Function.comp_apply] at hother
      obtain ⟨entry, hentry, rfl⟩ := hother
      split
      · exact hbinding
      · exact h entry.binding (List.mem_map_of_mem hentry)
    · exact h

/-- What is true of the bindings of a module and of those that are added to it stays true of all, even if adding
them is refused partway. -/
theorem forall_bindAll (h : ∀ binding ∈ m.bindings, P binding) {bindings : List (Binding V E)}
    (hbindings : ∀ binding ∈ bindings, P binding) : ∀ other ∈ (Module.bindAll bindings m).2.bindings, P other := by
  induction bindings generalizing m with
  | nil => exact h
  | cons binding rest ih =>
    obtain ⟨hfirst, hrest⟩ := List.forall_mem_cons.mp hbindings
    have hbound := forall_bind h hfirst
    unfold Module.bindAll
    split
    · next hbind => exact ih (by simpa [hbind] using hbound) hrest
    · next hbind => simpa [hbind] using hbound

end Module

namespace ComponentBuilder

variable {P : Binding V E → Prop} {merged m : Module V E}

/-- What is true of the bindings of all modules is true of the bindings of the module that they are merged into. -/
theorem forall_mergeModules {modules : List (Module V E)} (h : ∀ binding ∈ merged.bindings, P binding)
    (hmodules : ∀ source ∈ modules, ∀ binding ∈ source.bindings, P binding)
    (hmerge : mergeModules merged modules = .ok m) : ∀ binding ∈ m.bindings, P binding := by
  induction modules generalizing merged with
  | nil => exact Except.ok.inj hmerge ▸ h
  | cons first rest ih =>
    obtain ⟨hfirst, hrest⟩ := List.forall_mem_cons.mp hmodules
    have hmerged : ∀ other ∈ (merged.merge first).2.bindings, P other := Module.forall_bindAll h hfirst
    unfold mergeModules at hmerge
    split at hmerge
    · next hbind => exact ih (by simpa [hbind] using hmerged) hrest hmerge
    · cases hmerge

/-- What is true of all bindings that a component is built from is true of all that are registered. -/
theorem forall_registry {b : ComponentBuilder V E}
    (hmodules : ∀ source ∈ b.modules, ∀ binding ∈ source.bindings, P binding)
    (hbindings : ∀ binding ∈ b.bindings, P binding) (hregistry : b.registry = .ok m) :
    ∀ binding ∈ m.bindings, P binding := by
  have hfirst : ∀ binding ∈ (b.modules.headD .empty).bindings, P binding := by
    cases hb : b.modules with
    | nil => simp [Module.empty, Module.bindings]
    | cons first rest => exact hmodules first (hb ▸ List.mem_cons_self)
  have hrest : ∀ source ∈ b.modules.tail, ∀ binding ∈ source.bindings, P binding :=
    fun source hsource => hmodules source (List.mem_of_mem_tail hsource)
  simp only [registry, bind, Except.bind] at hregistry
  cases hmerge : mergeModules (b.modules.headD .empty) b.modules.tail with
  | error e =>
    rw [hmerge] at hregistry
    cases hregistry
  | ok merged =>
    have hbound := Module.forall_bindAll (forall_mergeModules hfirst hrest hmerge) hbindings
    rw [hmerge] at hregistry
    dsimp only at hregistry
    split at hregistry
    · next hall =>
      rw [hall] at hbound
      exact Except.ok.inj hregistry ▸ hbound
    · cases hregistry

/-- The bindings that a component is to be built from keep to their context and pass on nothing, and it is
to fall back on catalogs. -/
structure Confined (asks : Site → Prop) (b : ComponentBuilder V E) : Prop where
  modules : ∀ source ∈ b.modules, ∀ binding ∈ source.bindings, binding.Confined asks fun _ => False
  bindings : ∀ binding ∈ b.bindings, binding.Confined asks fun _ => False
  factories : ∀ factory ∈ b.config.factories, ∃ catalog : Catalog V E, catalog.Confined asks ∧ factory = catalog.factory

end ComponentBuilder

/-- Catalogs of the types that small worlds are about ask for nothing. -/
theorem Catalog.confined_nth {asks : Site → Prop} (n : UInt64) (scope : Option ScopeTag) :
    (Catalog.mk [.nth n scope]).Confined asks := by
  intro entry hentry key context
  obtain rfl := List.mem_singleton.mp hentry
  exact fun object => trivial

/-! ### Hierarchies that arise -/

namespace World

/-- The world is arrived at from an empty one, by building components below those that are there, dropping
them, making top-level requests, and by what happens outside of the container. -/
inductive Arises [Hashed V] (asks : Site → Prop) : World V E → Prop
  | initial (surroundings : E) : Arises asks (initial surroundings)
  | built {w w' : World V E} {b : ComponentBuilder V E} {c : ComponentId} :
      w.Arises asks → b.Confined asks → (∀ parent ∈ b.parents, parent < w.components.length) →
        w.build b = .ok (c, w') → w'.Arises asks
  | dropped {w : World V E} (c : ComponentId) : w.Arises asks → (w.drop c).Arises asks
  | answered {w w' : World V E} : w.Arises asks → w.Answers w' → w'.Arises asks
  | moved {w w' : World V E} :
      w.Arises asks → w'.components = w.components → w'.cells = w.cells → w'.Arises asks

/-- Every component keeps to itself and its ancestors. -/
def Sound (asks : Site → Prop) (w : World V E) : Prop :=
  ∀ c component, w.component? c = some component → component.Confined asks w.Lineage c

variable {asks : Site → Prop} {w w' : World V E} {c d : ComponentId}

/-- Ancestors stay ancestors if parents stay parents. -/
theorem Lineage.mono (h : w.Lineage c d) (hparents : ∀ c, ∀ parent ∈ w.parents c, parent ∈ w'.parents c) :
    w'.Lineage c d := Relation.ReflTransGen.mono hparents _ _ h

/-- Ancestors depend on the parents only. -/
theorem lineage_congr (hparents : ∀ c, w'.parents c = w.parents c) : w'.Lineage = w.Lineage := by
  unfold Lineage
  simp only [hparents]

/-- In a sound world every realm keeps to itself. -/
theorem Sound.holds (h : w.Sound asks) (root : ComponentId) : (Realm.mk asks w root).Holds w :=
  fun c component _ hcomponent => h c component hcomponent

/-- In a sound world parents come before their children, and so do all ancestors. -/
theorem Sound.ordered (h : w.Sound asks) {parent : ComponentId} (hparent : parent ∈ w.parents c) : parent < c :=
  ((h.holds c).parents .refl hparent).2

/-- Ancestors are built before their descendants. -/
theorem Sound.le_of_lineage (h : w.Sound asks) (hlineage : w.Lineage c d) : d ≤ c := by
  induction hlineage with
  | refl => exact Nat.le_refl _
  | tail _ hparent ih => exact Nat.le_trans (Nat.le_of_lt (h.ordered hparent)) ih

/-- Catalogs are all that a sound world falls back on. -/
theorem Sound.fromCatalogs (h : w.Sound asks) : w.FromCatalogs := by
  intro c factory hfactory
  obtain ⟨catalog, -, rfl⟩ := (h.holds c).factories .refl hfactory
  exact ⟨catalog, rfl⟩

/-- A component that is built from what keeps to its context is sound below components that are there. -/
theorem Sound.build (h : w.Sound asks) {b : ComponentBuilder V E} (hb : b.Confined asks)
    (hparents : ∀ parent ∈ b.parents, parent < w.components.length) (hbuild : w.build b = .ok (c, w')) :
    w'.Sound asks := by
  obtain ⟨m, hregistry, hadded⟩ := build_eq_ok hbuild
  have hbindings := ComponentBuilder.forall_registry hb.modules hb.bindings hregistry
  have hgrown (d : ComponentId) (parent : ComponentId) (hparent : parent ∈ w.parents d) :
      parent ∈ w'.parents d := by
    rw [← hadded]
    unfold World.parents at hparent ⊢
    rw [component?_addComponent]
    split
    · next hd => simp [component?, hd] at hparent
    · exact hparent
  intro d component hcomponent
  rw [← hadded, component?_addComponent] at hcomponent
  split at hcomponent
  · next hd =>
    obtain rfl := Option.some.inj hcomponent
    have hfirst (parent : ComponentId) (hparent : parent ∈ b.parents.reverse) : w'.Lineage d parent := by
      refine Relation.ReflTransGen.single ?_
      rw [← hadded]
      simpa [World.parents, component?_addComponent, hd, ComponentBuilder.component] using hparent
    refine ⟨fun parent hparent => ⟨hfirst parent hparent, ?_⟩, fun binding hbinding context => ?_, hb.factories⟩
    · exact hd ▸ hparents parent (List.mem_reverse.mp hparent)
    · exact (hbindings binding hbinding context).mono fun _ hfalse => hfalse.elim
  · exact (h d component hcomponent).mono fun owner hlineage => hlineage.mono hgrown

/-- Dropping a component changes nothing of what it keeps to. -/
theorem Sound.drop (h : w.Sound asks) (c : ComponentId) : (w.drop c).Sound asks := by
  intro d component hcomponent
  rw [lineage_congr (w.parents_drop c)]
  unfold World.drop at hcomponent
  rw [component?_modifyComponent, Option.map_eq_some_iff] at hcomponent
  obtain ⟨before, hbefore, rfl⟩ := hcomponent
  have hconfined := h d before hbefore
  split
  · exact ⟨hconfined.parents, hconfined.bindings, hconfined.factories⟩
  · exact hconfined

/-- A request stores only what keeps to the component and its ancestors. -/
theorem Sound.answers [Hashed V] (h : w.Sound asks) (hanswers : w.Answers w') : w'.Sound asks := by
  have hgrows : w.Grows w' := History.grows h.fromCatalogs (.single hanswers)
  obtain ⟨depth, root, q, reply, hrun⟩ := hanswers
  have hmirrors := Query.task_mirrors (h.holds root) (.refl _ w) q depth
  obtain ⟨_, -, -, hcontains⟩ := hmirrors.of_ok hrun
  intro c component hcomponent
  rw [lineage_congr hgrows.parents]
  by_cases hc : w.Lineage root c
  · exact hcontains.holds c component hc hcomponent
  · exact h c component ((hcontains.spares.component hc).symm.trans hcomponent)

/-- Every world that arises is sound. -/
theorem Arises.sound [Hashed V] (h : w.Arises asks) : w.Sound asks := by
  induction h with
  | initial surroundings => exact fun c component hcomponent => by simp [component?, World.initial] at hcomponent
  | built _ hb hparents hbuild ih => exact ih.build hb hparents hbuild
  | dropped c _ ih => exact ih.drop c
  | answered _ hanswers ih => exact ih.answers hanswers
  | moved _ hcomponents _ ih =>
    intro c component hcomponent
    rw [lineage_congr fun c => (Grows.of_components hcomponents).parents c]
    simp only [component?, hcomponents] at hcomponent
    exact ih c component hcomponent

/-- In a world that arises, a top-level request at a component runs only definitions of bindings that are
stored in the component and its ancestors. Each of them runs in the context of the component that stores
it, looks up keys nowhere else, and passes requests on at most to an ancestor. All other components stay
as they are, and so do their cells. In any world that agrees with this one on the component, its ancestors
and the shared cells, the request ends or halts alike and leaves them alike. -/
theorem Arises.confined [Hashed V] (h : w.Arises asks) (c : ComponentId) (q : Query V) (depth : Nat) :
    (∀ visit, w.Visits depth (q.task c) visit →
      w.Lineage c visit.stored.owner ∧ visit.context.component = visit.stored.owner ∧
        ∀ depth' request v, visit.Makes depth' request v →
          (∃ key parameters,
            request = .resolve visit.stored.owner visit.context.path visit.context.resolution key parameters) ∨
          ∃ owner key, w.Lineage visit.stored.owner owner ∧ owner < visit.stored.owner ∧
            request = .obtain owner key { visit.context with component := owner }) ∧
      (∀ reply w', w.run depth (q.task c) = .ok (reply, w') → w.Spares (w.Lineage c) w') ∧
      ∀ v, w.AgreesOn (w.Lineage c) v →
        (∀ halt, w.run depth (q.task c) = .error halt → v.run depth (q.task c) = .error halt) ∧
          ∀ reply w', w.run depth (q.task c) = .ok (reply, w') →
            ∃ v', v.run depth (q.task c) = .ok (reply, v') ∧ w'.AgreesOn (w.Lineage c) v' := by
  let R : Realm V E := ⟨asks, w, c⟩
  have hw : R.Holds w := h.sound.holds c
  refine ⟨fun visit hvisit => ?_, fun reply w' hrun => ?_, fun v hagrees => ?_⟩
  · obtain ⟨_, -, -, hcomponent, howner, hbinding, hworld⟩ := World.Visits.inRealm (R := R) hw hvisit
    refine ⟨howner, hcomponent, fun depth' request v hmakes => ?_⟩
    obtain ⟨hspawns, -⟩ := Visit.spawns_of_makes (R := R) hcomponent howner hbinding hworld hmakes
    cases request with
    | resolve place path resolution key parameters =>
      obtain ⟨rfl, rfl, rfl, -⟩ := hspawns
      exact .inl ⟨key, parameters, by rw [hcomponent]⟩
    | obtain owner key inner =>
      obtain ⟨⟨hlineage, hlt⟩, rfl⟩ := hspawns
      exact .inr ⟨owner, key, hcomponent ▸ hlineage, hcomponent ▸ hlt, rfl⟩
  · obtain ⟨_, -, -, hcontains⟩ := (Query.task_mirrors (R := R) hw (.refl _ w) q depth).of_ok hrun
    exact hcontains.spares
  · have hmirrors := Query.task_mirrors (R := R) hw hagrees q depth
    refine ⟨fun halt hrun => hmirrors.of_error hrun, fun reply w' hrun => ?_⟩
    obtain ⟨v', hother, -, hcontains⟩ := hmirrors.of_ok hrun
    exact ⟨v', hother, hcontains.agrees⟩

/-- The estate arises by building its components one after the other. -/
theorem arises_estate : estate.Arises fun _ => True := by
  have hbuilder (scopes : List ScopeTag) (parents : List ComponentId) : ComponentBuilder.Confined (fun _ => True)
      (⟨scopes, parents, [], [], estate.config 0⟩ : ComponentBuilder Unit Unit) := by
    refine ⟨by simp, by simp, fun factory hfactory => ?_⟩
    exact ⟨_, Catalog.confined_nth 0 _, List.mem_singleton.mp hfactory⟩
  have hroot := Arises.built (.initial ()) (hbuilder [] []) (by decide) rfl
  have hfirst := Arises.built hroot (hbuilder [DefaultScope.session.tag] [0]) (by decide) rfl
  have hsecond := Arises.built hfirst (hbuilder [DefaultScope.session.tag] [0]) (by decide) rfl
  exact Arises.built hsecond (hbuilder [] [1]) (by decide) rfl

/-- The second child of the root is not above the child of the first. -/
theorem not_lineage_estate : ¬ estate.Lineage 3 2 := by
  have habove {c : ComponentId} (h : estate.Lineage 3 c) : c = 3 ∨ c = 1 ∨ c = 0 := by
    induction h with
    | refl => exact .inl rfl
    | tail _ hparent ih =>
      rcases ih with rfl | rfl | rfl
      · exact .inr (.inl (List.mem_singleton.mp hparent))
      · exact .inr (.inr (List.mem_singleton.mp hparent))
      · cases hparent
  exact fun h => by simpa using habove h

/-- A request in the first branch of the estate comes to the same object whether the second branch is there
or has been dropped, and leaves it alone. -/
theorem Arises.confined_estate :
    ∃ object w v, estate.run 4 ((Query.get (.nth 0) []).task 3) = .ok (.ok (some object), w) ∧
      (estate.drop 2).run 4 ((Query.get (.nth 0) []).task 3) = .ok (.ok (some object), v) ∧
        w.AgreesOn (estate.Lineage 3) v ∧ w.component? 2 = estate.component? 2 := by
  obtain ⟨object, w, hrun⟩ : ∃ object w,
      estate.run 4 ((Query.get (.nth 0) []).task 3) = .ok (.ok (some object), w) := ⟨_, _, rfl⟩
  obtain ⟨-, hspares, hagrees⟩ := arises_estate.confined 3 (Query.get (.nth 0) []) 4
  have hdropped : estate.AgreesOn (estate.Lineage 3) (estate.drop 2) := by
    refine ⟨fun {c} hc => ?_, fun _ => rfl, rfl, rfl, rfl⟩
    have hne : 2 ≠ c := fun heq => not_lineage_estate (heq ▸ hc)
    rw [World.drop, component?_modifyComponent]
    cases estate.component? c <;> simp [hne]
  obtain ⟨v, hother, hsame⟩ := (hagrees _ hdropped).2 _ _ hrun
  exact ⟨object, w, v, hrun, hother, hsame, (hspares _ _ hrun).component not_lineage_estate⟩

end World

end Injection

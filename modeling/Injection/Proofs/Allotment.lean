import Injection.Proofs.Hierarchy
import Injection.Proofs.Selection

/-!
# What is stored for a scoped type

Components store bindings for a scoped type one by one, as it is asked for here and there. In a
hierarchy in which every component has at most one owner of the scope above it, whatever comes to
be stored is determined from the beginning: an owner of the scope stores the single binding of the
catalog entry, and any other component a binding that passes requests on to the owner above it.
Components without an owner store nothing.
-/

namespace Injection

variable {V E α β : Type}

/-! ### Scopes and what is above -/

namespace World

variable {w : World V E} {c d : ComponentId} {tag : ScopeTag} {owner : ComponentId}

/-- A component that declares a scope owns it. -/
theorem scopeOwner?_of_hasScope (h : w.hasScope c tag = true) : w.scopeOwner? c tag = some c := by
  simp [scopeOwner?, scopeOwnerWithin?, h]

/-- The owner of a scope is the component itself or above it. -/
theorem above_of_scopeOwner? (h : w.scopeOwner? c tag = some owner) : w.Above c owner := by
  unfold scopeOwner? at h
  generalize c + 1 = generations at h
  induction generations generalizing c with
  | zero => simp [scopeOwnerWithin?] at h
  | succ generations ih =>
    unfold scopeOwnerWithin? at h
    split at h
    · exact Option.some.inj h ▸ .refl
    · obtain ⟨parent, hparent, howner⟩ := List.exists_of_findSome?_eq_some h
      exact .head hparent (ih howner)

/-- A scope that is declared above a component has an owner, as parents come before children. -/
theorem exists_scopeOwner? (hordered : ∀ c, ∀ parent ∈ w.parents c, parent < c) (habove : w.Above c d)
    (hscope : w.hasScope d tag = true) : ∃ owner, w.scopeOwner? c tag = some owner := by
  suffices hwithin : ∀ generations c, c < generations → w.Above c d →
      ∃ owner, w.scopeOwnerWithin? tag generations c = some owner from
    hwithin (c + 1) c (Nat.lt_succ_self c) habove
  intro generations
  induction generations with
  | zero => exact fun c hc => absurd hc (Nat.not_lt_zero c)
  | succ generations ih =>
    intro c hc habove
    unfold scopeOwnerWithin?
    split
    · exact ⟨c, rfl⟩
    · next hhas =>
      rcases habove.cases_head with rfl | ⟨parent, hparent, hrest⟩
      · exact absurd hscope hhas
      · have hlt : parent < c := hordered c parent (List.mem_filter.mp hparent).1
        obtain ⟨owner, howner⟩ := ih parent (Nat.lt_of_lt_of_le hlt (Nat.le_of_lt_succ hc)) hrest
        rw [← Option.isSome_iff_exists, List.findSome?_isSome_iff]
        exact ⟨parent, hparent, Option.isSome_iff_exists.mpr ⟨owner, howner⟩⟩

end World

/-! ### Constructors -/

/-- Whatever object the program ends with, it makes at last. -/
def Program.MakesLast : Program V E → Prop
  | .done outcome => ∀ object, outcome ≠ .ok object
  | .request _ _ next => ∀ reply, (next reply).MakesLast
  | .start _ _ _ next => ∀ reply, (next reply).MakesLast
  | .forward _ _ next => ∀ reply, (next reply).MakesLast
  | .share _ _ next => ∀ reply, (next reply).MakesLast
  | .make _ _ next => (∀ object, next object = .done (.ok object)) ∨ ∀ object, (next object).MakesLast
  | .touch _ next => ∀ before, (next before).MakesLast
  | .report _ next => next.MakesLast
  | .meet _ next => next.MakesLast

/-- The action leaves it to what comes after it to end with an object. -/
def Action.MakesLast (action : Action V E α) : Prop :=
  ∀ next, (∀ a, (next a).MakesLast) → (action next).MakesLast

/-- Actions one after the other leave it to what comes after both. -/
theorem Action.MakesLast.bind {action : Action V E α} {f : α → Action V E β} (h : action.MakesLast)
    (hf : ∀ a, (f a).MakesLast) : (action >>= f).MakesLast :=
  fun next hnext => h _ fun a => hf a next hnext

/-- Yielding something leaves the object to what comes after it. -/
theorem Action.makesLast_pure (a : α) : (pure a : Action V E α).MakesLast := fun _ hnext => hnext a

/-- Supplying arguments leaves the object to the constructor. -/
theorem CatalogEntry.supply_makesLast (key : Key) (arguments : List Argument) (context : Context V) :
    (supply key arguments context : Action V E _).MakesLast := by
  induction arguments with
  | nil => exact Action.makesLast_pure _
  | cons argument rest ih =>
    cases argument with
    | parameter name index =>
      unfold supply
      split
      · exact ih.bind fun _ => Action.makesLast_pure _
      · exact Action.makesLast_pure _
    | dependency name type qualifier nullable =>
      refine Action.MakesLast.bind (fun next hnext => hnext) fun reply => ?_
      cases reply with
      | error e => exact Action.makesLast_pure _
      | ok value => exact ih.bind fun _ => Action.makesLast_pure _

/-- An entry makes its object at last, if its constructor does not end otherwise. -/
theorem CatalogEntry.definition_makesLast {entry : CatalogEntry V E}
    (h : ∀ args, (entry.construct args).MakesLast) (key : Key) (context : Context V) :
    (entry.definition key context).MakesLast := by
  refine supply_makesLast key entry.descriptor.arguments context _ fun supplied => ?_
  cases supplied with
  | error e => exact fun object => by simp
  | ok arguments =>
    refine h _ _ fun outcome => ?_
    cases outcome with
    | error message => exact fun object => by simp
    | ok made => exact Or.inl fun object => rfl

/-! ### Allotments -/

/-- The site that an entry is for. -/
def CatalogEntry.site (entry : CatalogEntry V E) : Site :=
  ⟨entry.descriptor.target.id, entry.descriptor.qualifier.map Qualifier.identity⟩

/-- The identity of the key that the values of an entry are stored under. -/
def CatalogEntry.keyId (entry : CatalogEntry V E) : KeyId := ⟨entry.site, false⟩

/-- All components fall back on one catalog and nothing else. One of its entries makes objects of a
type that belongs to a scope; nothing is registered for the entry, and no component has two owners
of the scope above it. -/
structure World.Allots (base : World V E) (catalog : Catalog V E) (entry : CatalogEntry V E)
    (scope : ScopeTag) : Prop where
  factories : ∀ c component, base.component? c = some component → component.config.factories = [catalog.factory]
  listed : catalog.find? entry.descriptor.target.id = some entry
  inScope : entry.descriptor.scope = some scope
  plural : entry.descriptor.isSingleton = false
  constructs : ∀ args, (entry.construct args).MakesLast
  unbound : ∀ c, ∀ binding ∈ base.bindings c, binding.key.site ≠ entry.site
  unique : ∀ c owner owner', base.Above c owner → base.Above c owner' → base.hasScope owner scope = true →
    base.hasScope owner' scope = true → owner = owner'

/-- What a component stores for the site of an entry: the single binding of the entry if it owns the
scope, and otherwise a binding that passes requests on to the owner. -/
def CatalogEntry.Allotment (entry : CatalogEntry V E) (base : World V E) (scope : ScopeTag) (c : ComponentId)
    (binding : Binding V E) : Prop :=
  binding.key.identity = entry.keyId ∧
    if base.hasScope c scope then binding = .new binding.key .single (entry.definition binding.key)
    else ∃ owner other, base.scopeOwner? c scope = some owner ∧ other.key.identity = entry.keyId ∧
      binding = (Stored.forwarding ⟨owner, other⟩).withKey binding.key

/-- The owner of the scope stores a single binding, and others a binding that is asked each time. -/
theorem CatalogEntry.Allotment.cases {entry : CatalogEntry V E} {base : World V E} {scope : ScopeTag}
    {c : ComponentId} {binding : Binding V E} (h : entry.Allotment base scope c binding) :
    (base.hasScope c scope = true ∧ binding.kind = .single ∧ binding.definition = entry.definition binding.key) ∨
      ∃ owner other, base.scopeOwner? c scope = some owner ∧ other.key.identity = entry.keyId ∧
        binding.kind = .factory ∧ binding.definition = (Stored.forwarding ⟨owner, other⟩).definition := by
  obtain ⟨-, hbinding⟩ := h
  split at hbinding
  · next hhas => exact Or.inl ⟨hhas, congrArg Binding.kind hbinding, congrArg Binding.definition hbinding⟩
  · obtain ⟨owner, other, howner, hother, hbinding⟩ := hbinding
    exact Or.inr ⟨owner, other, howner, hother, (congrArg Binding.kind hbinding).trans rfl,
      (congrArg Binding.definition hbinding).trans rfl⟩

/-- Components grow from what they are in a world, and store for the site of an entry what is allotted
to them. -/
def Conduct.allotting (base : World V E) (entry : CatalogEntry V E) (scope : ScopeTag) : Conduct V E :=
  .free
    (fun components => (Conduct.growing base).holds components ∧
      ∀ c, ∀ binding ∈ World.bindings { base with components } c, binding.key.site = entry.site →
        entry.Allotment base scope c binding)
    fun c binding => (Conduct.growing base).stores c binding ∧
      (binding.key.site = entry.site → entry.Allotment base scope c binding)

namespace World.Allots

variable {base : World V E} {catalog : Catalog V E} {entry : CatalogEntry V E} {scope : ScopeTag}
  (h : base.Allots catalog entry scope)
include h

/-- Where a scope is allotted, all factories are catalogs. -/
theorem fromCatalogs : base.FromCatalogs := by
  intro c factory hfactory
  obtain ⟨component, hcomponent⟩ := exists_component_of_factory hfactory
  have hconfig : base.config c = component.config := by simp [World.config, hcomponent]
  rw [hconfig, h.factories c component hcomponent] at hfactory
  exact ⟨catalog, List.mem_singleton.mp hfactory⟩

/-- The catalog has the entry for all keys of the entry's site. -/
theorem find? {key : Key} (hsite : key.site = entry.site) :
    catalog.find? key.type.id = some entry ∧
      entry.descriptor.qualifier.map Qualifier.identity = key.site.qualifier := by
  have htype : key.type.id = entry.descriptor.target.id := congrArg Site.type hsite
  exact ⟨htype ▸ h.listed, (congrArg Site.qualifier hsite).symm⟩

/-- The owner of the scope is the only component above that declares it. -/
theorem scopeOwner?_of_above (hpristine : base.Pristine) {c owner : ComponentId} (habove : base.Above c owner)
    (hscope : base.hasScope owner scope = true) : base.scopeOwner? c scope = some owner := by
  obtain ⟨other, hother⟩ := exists_scopeOwner? hpristine.ordered habove hscope
  rw [hother, h.unique c other owner (above_of_scopeOwner? hother) habove (hasScope_of_scopeOwner? hother) hscope]

/-- What the catalog answers for a key is allotted to the component that asks. -/
theorem supplies (key : Key) (c : ComponentId) :
    catalog.Supplies (.allotting base entry scope) key.required c fun binding =>
      (Conduct.allotting base entry scope).stores c (binding.withKey key.required) := by
  by_cases hsite : key.required.site = entry.site
  · intro found hfound _
    obtain ⟨hfind, -⟩ := h.find? hsite
    obtain rfl : entry = found := Option.some.inj (hfind.symm.trans hfound)
    have hid : key.required.identity = entry.keyId := congrArg (KeyId.mk · false) hsite
    rw [h.plural, h.inScope]
    intro w hw
    have hgrows : base.Grows w := World.Grows.trans hw.1 (.of_components rfl)
    dsimp only
    rw [hgrows.hasScope, hgrows.scopeOwner?]
    split
    · next hhas => exact ⟨Or.inl rfl, fun _ => ⟨hid, by rw [if_pos hhas]; rfl⟩⟩
    · next hhas =>
      intro owner howner
      refine ⟨⟨Or.inl rfl, fun _ => ⟨hid, ?_⟩⟩, fun other _ hother => ⟨Or.inl rfl, fun _ => ⟨hid, ?_⟩⟩⟩
      · rw [if_pos (hasScope_of_scopeOwner? howner)]
        rfl
      · rw [if_neg hhas]
        exact ⟨owner, other, howner, hother.trans hid, rfl⟩
  · refine Catalog.supplies_of_stores (fun binding _ => ⟨Or.inl rfl, fun heq => absurd heq hsite⟩) ?_
    exact fun other owner => ⟨Or.inl rfl, fun heq => absurd heq hsite⟩

/-- Whatever calls lead to, components store what is allotted to them. -/
theorem lawful [Hashed V] : (Conduct.allotting base entry scope).Lawful := by
  have hgrowing : (Conduct.growing base).Lawful := Conduct.lawful_growing h.fromCatalogs
  apply Conduct.lawful_free
  · intro components c component binding hholds hcomponent hbinding
    refine ⟨hgrowing.stored hholds.1 hcomponent hbinding, hholds.2 c binding ?_⟩
    simpa [World.bindings, component?, hcomponent] using hbinding
  · intro w c binding hholds hstores
    refine ⟨hgrowing.memoized hholds.1 hstores.1, fun d other hother hsite => ?_⟩
    rcases w.bindings_memoize c d binding with hsame | ⟨rfl, -, hadded⟩
    · exact hholds.2 d other (hsame ▸ hother) hsite
    · have hmem : other ∈ w.bindings d ++ [binding] := hadded ▸ hother
      rcases List.mem_append.mp hmem with hmem | hmem
      · exact hholds.2 d other hmem hsite
      · obtain rfl := List.mem_singleton.mp hmem
        exact hstores.2 hsite
  · intro components c component factory key hholds hcomponent hfactory
    have hfactory' : factory ∈ (World.config { base with components } c).factories := by
      simpa [World.config, component?, hcomponent] using hfactory
    rw [hholds.1.config] at hfactory'
    obtain ⟨component', hcomponent'⟩ := exists_component_of_factory hfactory'
    have hconfig : base.config c = component'.config := by simp [World.config, hcomponent']
    rw [hconfig, h.factories c component' hcomponent'] at hfactory'
    obtain rfl := List.mem_singleton.mp hfactory'
    exact ⟨_, h.supplies key c, fun reply hreply => hreply⟩

/-- To begin with, nothing is stored for the entry. -/
theorem holds : (Conduct.allotting base entry scope).holds base.components :=
  ⟨World.Grows.refl base, fun c binding hbinding hsite => absurd hsite (h.unbound c binding hbinding)⟩

end World.Allots

end Injection

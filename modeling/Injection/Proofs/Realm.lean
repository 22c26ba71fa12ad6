import Injection.Proofs.Hierarchy
import Injection.Proofs.Outcomes

/-!
# A component and its ancestors

The realm of a component consists of the component and its ancestors. A definition keeps to its context if
it makes requests only through it, and passes requests on only to ancestors. Two worlds may agree in a
realm, whatever else they consist of, and what is changed in the realm may spare everything else.
-/

namespace Injection

variable {V E α β : Type}

/-! ### Definitions that keep to their context -/

/-- The program makes requests only through its context, for some sites, and passes requests on only to
some components. -/
def Program.Confined (asks : Site → Prop) (passes : ComponentId → Prop) : Program V E → Prop
  | .done _ => True
  | .request key _ next => asks key.site ∧ ∀ reply, (next reply).Confined asks passes
  | .start _ _ _ _ => False
  | .forward owner _ next => passes owner ∧ ∀ reply, (next reply).Confined asks passes
  | .share _ body next => body.Confined asks passes ∧ ∀ reply, (next reply).Confined asks passes
  | .make _ _ next => ∀ object, (next object).Confined asks passes
  | .touch _ next => ∀ before, (next before).Confined asks passes
  | .report _ next => next.Confined asks passes
  | .meet _ next => next.Confined asks passes

/-- The definition of the binding keeps to its context. -/
def Binding.Confined (asks : Site → Prop) (passes : ComponentId → Prop) (binding : Binding V E) : Prop :=
  ∀ context, (binding.definition context).Confined asks passes

/-- The definitions of the catalog's entries keep to their context, and pass on nothing. -/
def Catalog.Confined (asks : Site → Prop) (catalog : Catalog V E) : Prop :=
  ∀ entry ∈ catalog.entries, ∀ key context, (entry.definition key context).Confined asks fun _ => False

/-- Of the components that a place is below of, as a relation says: the parents are among them and come
before the place, definitions pass requests on only to them, and all factories are catalogs. -/
structure Component.Confined (asks : Site → Prop) (below : ComponentId → ComponentId → Prop) (c : ComponentId)
    (component : Component V E) : Prop where
  parents : ∀ parent ∈ component.parents, below c parent ∧ parent < c
  bindings : ∀ binding ∈ component.bindings, binding.Confined asks fun owner => below c owner ∧ owner < c
  factories : ∀ factory ∈ component.config.factories,
    ∃ catalog : Catalog V E, catalog.Confined asks ∧ factory = catalog.factory

section Confined

variable {asks : Site → Prop} {passes passes' : ComponentId → Prop}

/-- A program that keeps to its context may be allowed to pass requests on to more components. -/
theorem Program.Confined.mono {program : Program V E} (h : program.Confined asks passes)
    (hpasses : ∀ owner, passes owner → passes' owner) : program.Confined asks passes' := by
  induction program with
  | done outcome => trivial
  | request key parameters next ih => exact ⟨h.1, fun reply => ih reply (h.2 reply)⟩
  | start component key parameters next ih => exact h
  | forward owner key next ih => exact ⟨hpasses owner h.1, fun reply => ih reply (h.2 reply)⟩
  | share entry body next ihbody ih => exact ⟨ihbody h.1, fun reply => ih reply (h.2 reply)⟩
  | make type value next ih => exact fun object => ih object (h object)
  | touch change next ih => exact fun before => ih before (h before)
  | report event next ih => exact ih h
  | meet gate next ih => exact ih h

/-- A binding that passes requests on to a component keeps to its context otherwise. -/
theorem Stored.forwarding_confined {stored : Stored V E} (h : passes stored.owner) :
    stored.forwarding.Confined asks passes := by
  refine fun context => ⟨h, fun reply => ?_⟩
  cases reply <;> trivial

/-- A shared definition keeps to its context if what it shares does. -/
theorem CatalogEntry.sharedDefinition_confined {entry : CatalogEntry V E} {key : Key} {context : Context V}
    (h : (entry.definition key context).Confined asks passes) :
    (entry.sharedDefinition key context).Confined asks passes := by
  refine ⟨h, fun reply => ?_⟩
  cases reply <;> trivial

/-- A component may be below more components. -/
theorem Component.Confined.mono {below below' : ComponentId → ComponentId → Prop} {c : ComponentId}
    {component : Component V E} (h : component.Confined asks below c)
    (hbelow : ∀ owner, below c owner → below' c owner) : component.Confined asks below' c where
  parents parent hparent := (h.parents parent hparent).imp_left (hbelow parent)
  bindings binding hbinding context :=
    (h.bindings binding hbinding context).mono fun owner => And.imp_left (hbelow owner)
  factories := h.factories

end Confined

/-! ### Realms -/

/-- A component or one of its ancestors, dropped ones included. -/
def World.Lineage (w : World V E) : ComponentId → ComponentId → Prop :=
  Relation.ReflTransGen fun c parent => parent ∈ w.parents c

/-- The component that requests start at, the world whose hierarchy counts, and the sites that definitions
may ask for. -/
structure Realm (V E : Type) where
  asks : Site → Prop
  base : World V E
  root : ComponentId

/-- The cell belongs to one of some components, or to a catalog entry. -/
def Slot.In (region : ComponentId → Prop) : Slot → Prop
  | .single owner _ | .multi owner _ _ => region owner
  | .shared _ => True

/-- Two worlds are the same in a region, and have the same numbers and surroundings. -/
structure World.AgreesOn (region : ComponentId → Prop) (w w' : World V E) : Prop where
  component : ∀ {c}, region c → w'.component? c = w.component? c
  cells : ∀ {slot}, slot.In region → w'.cells slot = w.cells slot
  nextObject : w'.nextObject = w.nextObject
  nextResolution : w'.nextResolution = w.nextResolution
  surroundings : w'.surroundings = w.surroundings

/-- Outside of a region nothing is changed. -/
structure World.Spares (region : ComponentId → Prop) (w w' : World V E) : Prop where
  component : ∀ {c}, ¬ region c → w'.component? c = w.component? c
  cells : ∀ {slot}, ¬ slot.In region → w'.cells slot = w.cells slot

namespace Realm

/-- The component is in the realm. -/
def Has (R : Realm V E) (c : ComponentId) : Prop := R.base.Lineage R.root c

/-- The components to which definitions in a component may pass requests on. -/
def Passes (R : Realm V E) (c owner : ComponentId) : Prop := R.base.Lineage c owner ∧ owner < c

/-- All components of the realm keep to it. -/
def Holds (R : Realm V E) (w : World V E) : Prop :=
  ∀ c component, R.Has c → w.component? c = some component → component.Confined R.asks R.base.Lineage c

variable {R : Realm V E} {w w' : World V E} {c d : ComponentId}

/-- The ancestors of what is in the realm are in it. -/
theorem Has.lineage (h : R.Has c) (hlineage : R.base.Lineage c d) : R.Has d := Relation.ReflTransGen.trans h hlineage

/-- Components keep to the realm where they stay as they are. -/
theorem Holds.of_components (h : R.Holds w) (hcomponents : w'.components = w.components) : R.Holds w' := by
  intro c component hc hcomponent
  unfold World.component? at hcomponent
  rw [hcomponents] at hcomponent
  exact h c component hc hcomponent

/-- The parents of what is in the realm are above it. -/
theorem Holds.parents (h : R.Holds w) (hc : R.Has c) {parent : ComponentId} (hparent : parent ∈ w.parents c) :
    R.base.Lineage c parent ∧ parent < c := by
  unfold World.parents at hparent
  cases hcomponent : w.component? c with
  | none => simp [hcomponent] at hparent
  | some component =>
    rw [hcomponent] at hparent
    exact (h c component hc hcomponent).parents parent hparent

/-- What is stored in the realm keeps to it. -/
theorem Holds.bindings (h : R.Holds w) (hc : R.Has c) {binding : Binding V E} {key : KeyId}
    (hbinding : w.binding? c key = some binding) : binding.Confined R.asks (R.Passes c) := by
  obtain ⟨component, hcomponent, hmem, -⟩ := World.mem_of_binding? hbinding
  exact (h c component hc hcomponent).bindings binding hmem

/-- Everything that components of the realm fall back on is a catalog. -/
theorem Holds.factories (h : R.Holds w) (hc : R.Has c) {factory : Factory V E}
    (hfactory : factory ∈ (w.config c).factories) :
    ∃ catalog : Catalog V E, catalog.Confined R.asks ∧ factory = catalog.factory := by
  unfold World.config at hfactory
  cases hcomponent : w.component? c with
  | none => simp [hcomponent, ComponentConfig.default] at hfactory
  | some component =>
    rw [hcomponent] at hfactory
    exact (h c component hc hcomponent).factories factory hfactory

end Realm

namespace World

variable {region : ComponentId → Prop} {w w' w'' : World V E} {c : ComponentId} {slot : Slot} {cell : Cell V}

/-- A world agrees with itself everywhere. -/
theorem AgreesOn.refl (region : ComponentId → Prop) (w : World V E) : w.AgreesOn region w :=
  ⟨fun _ => rfl, fun _ => rfl, rfl, rfl, rfl⟩

/-- Where nothing is changed everything is spared. -/
theorem Spares.refl (region : ComponentId → Prop) (w : World V E) : w.Spares region w := ⟨fun _ => rfl, fun _ => rfl⟩

/-- What is spared twice is spared. -/
theorem Spares.trans (h : w.Spares region w') (h' : w'.Spares region w'') : w.Spares region w'' :=
  ⟨fun hc => (h'.component hc).trans (h.component hc), fun hslot => (h'.cells hslot).trans (h.cells hslot)⟩

/-- Where components and cells stay as they are everything is spared. -/
theorem Spares.of_eq (hcomponents : w'.components = w.components) (hcells : w'.cells = w.cells) :
    w.Spares region w' :=
  ⟨fun _ => by simp only [component?, hcomponents], fun _ => congrFun hcells _⟩

/-- Reading a component of the region gives the same in worlds that agree there. -/
theorem AgreesOn.read {γ : Type} (h : w.AgreesOn region w') (hc : region c) (f : Option (Component V E) → γ) :
    f (w'.component? c) = f (w.component? c) := congrArg f (h.component hc)

/-- Worlds that agree in a region agree on which of its components are alive. -/
theorem AgreesOn.isAlive (h : w.AgreesOn region w') (hc : region c) : w'.isAlive c = w.isAlive c :=
  h.read hc fun component => (component.map Component.alive).getD false

/-- They agree on the parents of its components. -/
theorem AgreesOn.parents (h : w.AgreesOn region w') (hc : region c) : w'.parents c = w.parents c :=
  h.read hc fun component => (component.map Component.parents).getD []

/-- They agree on how its components are configured. -/
theorem AgreesOn.config (h : w.AgreesOn region w') (hc : region c) : w'.config c = w.config c :=
  h.read hc fun component => (component.map Component.config).getD .default

/-- They agree on the scopes that its components declare. -/
theorem AgreesOn.hasScope (h : w.AgreesOn region w') (hc : region c) (tag : ScopeTag) :
    w'.hasScope c tag = w.hasScope c tag :=
  h.read hc fun component => ((component.map Component.scopes).getD []).contains tag

/-- They agree on what its components store under a key. -/
theorem AgreesOn.binding? (h : w.AgreesOn region w') (hc : region c) (key : KeyId) :
    w'.binding? c key = w.binding? c key :=
  h.read hc fun component => component.bind fun component => component.binding? key

/-- They agree on what serves a key at its components. -/
theorem AgreesOn.serving? (h : w.AgreesOn region w') (hc : region c) (key : Key) :
    w'.serving? c key = w.serving? c key :=
  h.read hc fun component => component.bind fun component => component.serving? key

/-- They still agree once the same has been reported in both. -/
theorem AgreesOn.emit (h : w.AgreesOn region w') (logger : Option String) (event : Event) :
    (w.emit logger event).AgreesOn region (w'.emit logger event) := by
  cases logger with
  | none => exact h
  | some name => exact ⟨h.component, h.cells, h.nextObject, h.nextResolution, h.surroundings⟩

/-- They still agree once the same cell is set alike in both. -/
theorem AgreesOn.setCell (h : w.AgreesOn region w') (slot : Slot) (cell : Cell V) :
    (w.setCell slot cell).AgreesOn region (w'.setCell slot cell) where
  component := h.component
  cells {other} hother := by
    by_cases heq : other = slot
    · rw [heq, setCell_self, setCell_self]
    · rw [setCell_ne heq, setCell_ne heq, h.cells hother]
  nextObject := h.nextObject
  nextResolution := h.nextResolution
  surroundings := h.surroundings

/-- Setting a cell of a region spares everything else. -/
theorem spares_setCell (hslot : slot.In region) (w : World V E) (cell : Cell V) :
    w.Spares region (w.setCell slot cell) where
  component _ := rfl
  cells {other} hother := setCell_ne (fun heq : other = slot => hother (heq ▸ hslot)) w cell

/-- A component after a binding was stored, here or elsewhere. -/
theorem component?_memoize (w : World V E) (c d : ComponentId) (binding : Binding V E) :
    (w.memoize c binding).component? d = (w.component? d).map fun component =>
      if c = d ∧ component.binding? binding.key.identity = none then
        { component with bindings := component.bindings ++ [binding] }
      else component := by
  unfold memoize
  cases hfound : w.binding? c binding.key.identity with
  | some stored =>
    cases hd : w.component? d with
    | none => rfl
    | some component =>
      have hkeep : ¬ (c = d ∧ component.binding? binding.key.identity = none) := by
        rintro ⟨rfl, hnone⟩
        simp [World.binding?, hd, hnone] at hfound
      simp [hkeep]
  | none =>
    simp only [component?_modifyComponent]
    cases hd : w.component? d with
    | none => rfl
    | some component =>
      by_cases hcd : c = d
      · subst hcd
        have hnone : component.binding? binding.key.identity = none := by simpa [World.binding?, hd] using hfound
        simp [hnone]
      · simp [hcd]

/-- Storing a binding changes nothing about how components are configured. -/
theorem config_memoize (w : World V E) (c d : ComponentId) (binding : Binding V E) :
    (w.memoize c binding).config d = w.config d := by
  simp only [World.config, component?_memoize]
  cases w.component? d <;> simp [apply_ite]

/-- Storing a binding changes the bindings of a component only. -/
theorem memoize_fields (w : World V E) (c : ComponentId) (binding : Binding V E) :
    (w.memoize c binding).cells = w.cells ∧ (w.memoize c binding).nextObject = w.nextObject ∧
      (w.memoize c binding).nextResolution = w.nextResolution ∧
        (w.memoize c binding).surroundings = w.surroundings := by
  unfold memoize modifyComponent
  split <;> exact ⟨rfl, rfl, rfl, rfl⟩

/-- They still agree once the same binding has been stored in both. -/
theorem AgreesOn.memoize (h : w.AgreesOn region w') (c : ComponentId) (binding : Binding V E) :
    (w.memoize c binding).AgreesOn region (w'.memoize c binding) := by
  obtain ⟨hcells, hobject, hresolution, hsurroundings⟩ := w.memoize_fields c binding
  obtain ⟨hcells', hobject', hresolution', hsurroundings'⟩ := w'.memoize_fields c binding
  refine ⟨fun hd => ?_, fun hslot => ?_, ?_, ?_, ?_⟩
  · rw [component?_memoize, component?_memoize, h.component hd]
  · rw [hcells, hcells', h.cells hslot]
  · rw [hobject, hobject', h.nextObject]
  · rw [hresolution, hresolution', h.nextResolution]
  · rw [hsurroundings, hsurroundings', h.surroundings]

/-- Storing a binding in a region spares everything else. -/
theorem spares_memoize (hc : region c) (w : World V E) (binding : Binding V E) :
    w.Spares region (w.memoize c binding) where
  component {d} hd := by
    have hne : c ≠ d := fun heq => hd (heq ▸ hc)
    rw [component?_memoize]
    cases w.component? d <;> simp [hne]
  cells _ := congrFun (w.memoize_fields c binding).1 _

end World

/-- Storing a binding that keeps to the realm leaves all components keeping to it. -/
theorem Realm.Holds.memoize {R : Realm V E} {w : World V E} (h : R.Holds w) {c : ComponentId}
    {binding : Binding V E} (hbinding : binding.Confined R.asks (R.Passes c)) : R.Holds (w.memoize c binding) := by
  intro d component hd hcomponent
  rw [World.component?_memoize, Option.map_eq_some_iff] at hcomponent
  obtain ⟨before, hbefore, rfl⟩ := hcomponent
  have hconfined := h d before hd hbefore
  split
  · next hstored =>
    obtain ⟨rfl, -⟩ := hstored
    refine ⟨hconfined.parents, fun other hother => ?_, hconfined.factories⟩
    rcases List.mem_append.mp hother with hother | hother
    · exact hconfined.bindings other hother
    · exact List.mem_singleton.mp hother ▸ hbinding
  · exact hconfined

end Injection

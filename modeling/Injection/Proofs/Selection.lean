import Injection.Proofs.Interleaving
import Injection.Proofs.Sequence

/-!
# Which component a request is served by

A request is served by the nearest component, among the one it is made at and its ancestors, that
stores a binding for the key, be it registered or synthesized before; only if there is none, the
component's own catalogs and the scopes of its ancestors decide. The selection thus depends on what
is stored on the way up, and on nothing else that has happened. What a component stores once, it
stores for good, so whatever it selects by itself it selects ever after.
-/

namespace Injection

variable {V E α : Type}

/-- Two searches find the same first hit if they agree on every element. -/
theorem findSome?_congr {α β : Type} {f g : α → Option β} {l : List α} (h : ∀ a ∈ l, f a = g a) :
    l.findSome? f = l.findSome? g := by
  induction l with
  | nil => rfl
  | cons a rest ih =>
    rw [List.findSome?_cons, List.findSome?_cons, h a List.mem_cons_self,
      ih fun b hb => h b (List.mem_cons_of_mem _ hb)]

/-- The component whose context the definition of a stored binding runs in: the one that stores it,
or the one that it passes requests on to. -/
def Stored.home (stored : Stored V E) (context : Context V) : ComponentId :=
  match stored.binding.definition { context with component := stored.owner } with
  | .forward owner _ _ => owner
  | _ => stored.owner

/-- The component that a request is served by; none if there is no binding. -/
abbrev Verdict (V : Type) := Except ResolveError (Option (Context V → ComponentId))

namespace World

variable {w w' w₀ w₁ w₂ : World V E} {c d : ComponentId} {key : Key} {resolution : Resolution}

/-- Which component serves a key at a component, as the rules of resolution have it. -/
def selection [Hashed V] (w : World V E) (resolution : Resolution) (c : ComponentId) (key : Key) :
    Except Halt (Verdict V) :=
  (w.run 0 (Resolution.locate resolution key c)).map fun result =>
    result.1.map (Option.map Stored.home)

/-- A component or one of its living ancestors. -/
def Above (w : World V E) : ComponentId → ComponentId → Prop :=
  Relation.ReflTransGen fun c parent => parent ∈ w.livingParents c

/-- The component that a stored binding for a key leads to, if the component stores one. -/
def home? (w : World V E) (d : ComponentId) (key : Key) : Option (Context V → ComponentId) :=
  (w.serving? d key).map fun binding => Stored.home ⟨d, binding⟩

/-- A component goes on storing what leads to some component. -/
theorem Grows.home? (h : w.Grows w') {home : Context V → ComponentId}
    (hhome : w.home? c key = some home) : w'.home? c key = some home := by
  obtain ⟨binding, hserving, rfl⟩ := Option.map_eq_some_iff.mp hhome
  exact Option.map_eq_some_iff.mpr ⟨binding, h.serving? hserving, rfl⟩

/-- What is found for a key within a number of generations. -/
def foundWithin? (w : World V E) (key : Key) : Nat → ComponentId → Option (Stored V E)
  | 0, _ => none
  | generations + 1, c =>
    match w.serving? c key with
    | some binding => some ⟨c, binding⟩
    | none => (w.livingParents c).findSome? (w.foundWithin? key generations)

/-- What is found for a key at a component. -/
def found? (w : World V E) (key : Key) (c : ComponentId) : Option (Stored V E) :=
  w.foundWithin? key (c + 1) c

/-- What serves a key depends on the components alone. -/
theorem serving?_of_components (h : w'.components = w.components) :
    w'.serving? c key = w.serving? c key := by
  simp [World.serving?, component?, h]

/-- What is found depends on the components only. -/
theorem foundWithin?_of_components (h : w'.components = w.components) (generations : Nat)
    (c : ComponentId) : w'.foundWithin? key generations c = w.foundWithin? key generations c := by
  induction generations generalizing c with
  | zero => rfl
  | succ generations ih =>
    have hserving : w'.serving? c key = w.serving? c key := serving?_of_components h
    have hparents : w'.livingParents c = w.livingParents c := (Grows.of_components h).livingParents c
    simp only [foundWithin?, hserving, hparents, funext ih]

/-- What a component itself stores is found first. -/
theorem found?_of_serving? {binding : Binding V E} (h : w.serving? c key = some binding) :
    w.found? key c = some ⟨c, binding⟩ := by
  simp [found?, foundWithin?, h]

/-- If nothing is found for a key, the component itself does not serve it. -/
theorem serving?_eq_none (h : w.found? key c = none) : w.serving? c key = none := by
  cases hserving : w.serving? c key with
  | none => rfl
  | some binding => simp [found?_of_serving? hserving] at h

/-- What is found is stored in the component or above it. -/
theorem found?_above (hgrows : w₀.Grows w) {stored : Stored V E} (h : w.found? key c = some stored) :
    w₀.Above c stored.owner ∧ w.serving? stored.owner key = some stored.binding := by
  unfold found? at h
  generalize c + 1 = generations at h
  induction generations generalizing c with
  | zero => simp [foundWithin?] at h
  | succ generations ih =>
    unfold foundWithin? at h
    split at h
    · next binding hserving =>
      obtain rfl := Option.some.inj h
      exact ⟨.refl, hserving⟩
    · obtain ⟨parent, hparent, hfound⟩ := List.exists_of_findSome?_eq_some h
      rw [hgrows.livingParents] at hparent
      obtain ⟨habove, hserving⟩ := ih hfound
      exact ⟨.head hparent habove, hserving⟩

/-- What serves a key is one of the component's bindings, for the key's site. -/
theorem mem_of_serving? {binding : Binding V E} (h : w.serving? c key = some binding) :
    binding ∈ w.bindings c ∧ binding.key.site = key.site := by
  rcases serving?_eq_some h with hfound | hfound <;>
    obtain ⟨component, hcomponent, hmem, hkey⟩ := mem_of_binding? hfound <;>
    exact ⟨by simpa [World.bindings, component?, hcomponent] using hmem, congrArg KeyId.site hkey⟩

/-- Nothing is found if nothing is stored on the way up. -/
theorem foundWithin?_eq_none (hgrows : w₀.Grows w) (h : ∀ d, w₀.Above c d → w.home? d key = none)
    (generations : Nat) : w.foundWithin? key generations c = none := by
  induction generations generalizing c with
  | zero => rfl
  | succ generations ih =>
    have hserving : w.serving? c key = none := Option.map_eq_none_iff.mp (h c .refl)
    simp only [foundWithin?, hserving, hgrows.livingParents, List.findSome?_eq_none_iff]
    intro parent hparent
    exact ih fun d hd => h d (.head hparent hd)

/-- What is found leads to the same component if what is stored on the way up does. -/
theorem foundWithin?_agree (h₁ : w₀.Grows w₁) (h₂ : w₀.Grows w₂)
    (h : ∀ d, w₀.Above c d → w₁.home? d key = w₂.home? d key) (generations : Nat) :
    (w₁.foundWithin? key generations c).map Stored.home =
      (w₂.foundWithin? key generations c).map Stored.home := by
  induction generations generalizing c with
  | zero => rfl
  | succ generations ih =>
    have hhome := h c .refl
    unfold home? at hhome
    cases hserving₁ : w₁.serving? c key with
    | some binding₁ =>
      cases hserving₂ : w₂.serving? c key with
      | some binding₂ => simpa [foundWithin?, hserving₁, hserving₂] using hhome
      | none => simp [hserving₁, hserving₂] at hhome
    | none =>
      cases hserving₂ : w₂.serving? c key with
      | some binding₂ => simp [hserving₁, hserving₂] at hhome
      | none =>
        simp only [foundWithin?, hserving₁, hserving₂, h₁.livingParents, h₂.livingParents,
          List.map_findSome?]
        refine findSome?_congr fun parent hparent => ?_
        exact ih fun d hd => h d (.head hparent hd)

end World

/-! ### What the rules of resolution come to -/

section Runs

variable {answer : Call V → World V E → Run V E (Reply V)} {w₀ w : World V E} {c : ComponentId}
  {key : Key} {resolution : Resolution}

namespace Resolution

/-- Visiting the parents finds what is found at the first living one that leads to a binding. -/
theorem searchParents_run {visit : ComponentId → Task V E (Option (Stored V E))}
    {find : ComponentId → Option (Stored V E)}
    (hvisit : ∀ parent (w' : World V E), w'.components = w.components →
      ∃ w'', (visit parent).run answer w' = .ok (find parent, w'') ∧ w''.components = w.components)
    (parents : List ComponentId) {w' : World V E} (h : w'.components = w.components) :
    ∃ w'', (searchParents resolution visit parents).run answer w' =
      .ok ((parents.filter w.isAlive).findSome? find, w'') ∧ w''.components = w.components := by
  induction parents generalizing w' with
  | nil => exact ⟨w', rfl, h⟩
  | cons parent rest ih =>
    have halive : w'.isAlive parent = w.isAlive parent := (World.Grows.of_components h).alive parent
    cases hparent : w.isAlive parent with
    | false =>
      have hemit : (w'.emit resolution.logger .parentDropped).components = w.components := by simp [h]
      obtain ⟨w'', hrun, hw''⟩ := ih hemit
      exact ⟨w'', by simpa [searchParents, halive, hparent] using hrun, hw''⟩
    | true =>
      obtain ⟨between, hvisited, hbetween⟩ := hvisit parent w' h
      simp only [searchParents, Task.run_read, halive, hparent, if_true]
      cases hfound : find parent with
      | some stored =>
        rw [hfound] at hvisited
        exact ⟨between, (Task.run_bind_of_ok hvisited).trans (by simp [hparent, hfound]), hbetween⟩
      | none =>
        rw [hfound] at hvisited
        obtain ⟨w'', hrun, hw''⟩ := ih hbetween
        exact ⟨w'', (Task.run_bind_of_ok hvisited).trans (by simpa [hparent, hfound] using hrun), hw''⟩

/-- A search finds what is stored nearest, and changes no component. -/
theorem searchWithin_run (generations : Nat) (c : ComponentId) {w' : World V E}
    (h : w'.components = w.components) :
    ∃ w'', (searchWithin resolution key generations c).run answer w' =
      .ok (w.foundWithin? key generations c, w'') ∧ w''.components = w.components := by
  induction generations generalizing c w' with
  | zero => exact ⟨w', rfl, h⟩
  | succ generations ih =>
    have hserving : w'.serving? c key = w.serving? c key := World.serving?_of_components h
    have hparents : w'.parents c = w.parents c := (World.Grows.of_components h).parents c
    cases hbinding : w.serving? c key with
    | some binding =>
      exact ⟨_, by simp [searchWithin, World.foundWithin?, hserving, hbinding]; rfl, by simp [h]⟩
    | none =>
      obtain ⟨w'', hrun, hw''⟩ := searchParents_run (fun parent w' hw' => ih parent hw') (w.parents c) h
      refine ⟨w'', ?_, hw''⟩
      simpa [searchWithin, World.foundWithin?, World.livingParents, hserving, hbinding, hparents] using hrun

variable (answer resolution)

/-- A search at a component finds what is found there. -/
theorem search_run (c : ComponentId) (key : Key) (w : World V E) :
    ∃ w', (search resolution key c).run answer w = .ok (w.found? key c, w') ∧
      w'.components = w.components :=
  searchWithin_run (c + 1) c rfl

/-- Storing a binding yields the one that is under its key then. -/
theorem memoize_run (c : ComponentId) (binding : Binding V E) (w : World V E) :
    ∃ w', (memoize resolution c binding).run answer w =
      .ok (⟨c, (w.binding? c binding.key.identity).getD binding⟩, w') ∧
        w'.components = (w.memoize c binding).components := by
  cases hbefore : w.binding? c binding.key.identity with
  | none =>
    refine ⟨(w.memoize c binding).emit resolution.logger .memoized, ?_, by simp⟩
    simp [memoize, Task.run, hbefore]
  | some stored =>
    refine ⟨(w.memoize c binding).emit resolution.logger .alreadyMemoized, ?_, by simp⟩
    simp [memoize, Task.run, hbefore]

/-- Storing a binding in another component is not noticed by the keys of this one. -/
theorem memoize_elsewhere {owner : ComponentId} (hne : owner ≠ c) (binding : Binding V E)
    (hkey : binding.key.nullable = false) (w : World V E) :
    ∃ stored w', (memoize resolution owner binding).run answer w = .ok (stored, w') ∧
      stored.owner = owner ∧ w.Grows w' ∧ ∀ key, w'.binding? c key = w.binding? c key := by
  obtain ⟨w', hrun, hcomponents⟩ := memoize_run answer resolution owner binding w
  refine ⟨_, w', hrun, rfl, (World.grows_memoize hkey).trans (.of_components hcomponents), fun key => ?_⟩
  rw [World.binding?_of_components hcomponents, World.binding?_memoize_of_ne hne]

/-- A component that stores nothing under a key stores what it is given. -/
theorem memoize_here {component : Component V E} {w : World V E} (binding : Binding V E)
    (hkey : binding.key.nullable = false) (hc : w.component? c = some component)
    (h : w.binding? c binding.key.identity = none) :
    ∃ w', (memoize resolution c binding).run answer w = .ok (⟨c, binding⟩, w') ∧ w.Grows w' ∧
      w'.binding? c binding.key.identity = some binding := by
  obtain ⟨w', hrun, hcomponents⟩ := memoize_run answer resolution c binding w
  rw [h, Option.getD_none] at hrun
  refine ⟨w', hrun, (World.grows_memoize hkey).trans (.of_components hcomponents), ?_⟩
  rw [World.binding?_of_components hcomponents, World.binding?_memoize hc h]

end Resolution

/-! ### What is synthesized -/

/-- A binding that forwards leads to the component that it forwards to. -/
@[simp]
theorem Stored.home_forwarding (stored : Stored V E) (c : ComponentId) :
    Stored.home ⟨c, stored.forwarding⟩ = fun _ => stored.owner := rfl

/-- A task that any resolution may run comes to an end with results of one meaning, in all worlds
that have grown from a given one and in which a component stores nothing under a key. -/
def World.Settles (w₀ : World V E) (c : ComponentId) (key : KeyId) (task : Resolution → Task V E α)
    (meaning : α → Verdict V) (after : α → World V E → Prop) : Prop :=
  ∃ verdict, ∀ (answer : Call V → World V E → Run V E (Reply V)) (resolution : Resolution)
    (w : World V E), w₀.Grows w → w.binding? c key = none →
      ∃ result w', (task resolution).run answer w = .ok (result, w') ∧ w.Grows w' ∧
        meaning result = verdict ∧ after result w'

/-- A task that always has one result and leaves the components alone. -/
theorem World.Settles.of_fixed {id : KeyId} {task : Resolution → Task V E α} {meaning : α → Verdict V}
    (result : α)
    (h : ∀ (answer : Call V → World V E → Run V E (Reply V)) (resolution : Resolution) (w : World V E),
      w₀.Grows w → ∃ w', (task resolution).run answer w = .ok (result, w') ∧ w'.components = w.components) :
    w₀.Settles c id task meaning fun _ w' => w'.binding? c id = none := by
  refine ⟨meaning result, fun answer resolution w hgrows hnone => ?_⟩
  obtain ⟨w', hrun, hcomponents⟩ := h answer resolution w hgrows
  refine ⟨result, w', hrun, .of_components hcomponents, rfl, ?_⟩
  exact (World.binding?_of_components hcomponents id).trans hnone

namespace Resolution

/-- A scoped type leads to whichever component owns the scope. -/
theorem settles_consult_scoped (w₀ : World V E) {catalog : Catalog V E} {entry : CatalogEntry V E}
    {scope : ScopeTag} (hkey : key.nullable = false) (c : ComponentId)
    (hfind : catalog.find? key.type.id = some entry)
    (hqualifier : entry.descriptor.qualifier.map Qualifier.identity = key.site.qualifier)
    (hsingleton : entry.descriptor.isSingleton = false) (hscope : entry.descriptor.scope = some scope) :
    w₀.Settles c key.identity (fun resolution => consult resolution catalog key c)
      (Except.map (Option.map fun binding => Stored.home ⟨c, binding⟩))
      fun _ w' => w'.binding? c key.identity = none := by
  cases hhas : w₀.hasScope c scope with
  | true =>
    refine .of_fixed (.ok (some (.new key .single (entry.definition key)))) fun _ resolution w hgrows => ?_
    have hhas' : w.hasScope c scope = true := (hgrows.hasScope c scope).trans hhas
    exact ⟨w.emit resolution.logger .scopedSynthesized,
      by simp [consult, hfind, hqualifier, hsingleton, hscope, hhas'], by simp⟩
  | false =>
    cases howner : w₀.scopeOwner? c scope with
    | none =>
      refine .of_fixed (.error (.scopeMismatch key scope)) fun _ _ w hgrows => ⟨w, ?_, rfl⟩
      have hhas' : w.hasScope c scope = false := (hgrows.hasScope c scope).trans hhas
      have howner' : w.scopeOwner? c scope = none := (hgrows.scopeOwner? c scope).trans howner
      simp [consult, hfind, hqualifier, hsingleton, hscope, hhas', howner']
    | some owner =>
      -- The owner is another component, so what is stored there is not under the keys of this one.
      have hne : owner ≠ c := by
        rintro rfl
        simp [World.hasScope_of_scopeOwner? howner] at hhas
      refine ⟨.ok (some fun _ => owner), fun answer resolution w hgrows hnone => ?_⟩
      have hhas' : w.hasScope c scope = false := (hgrows.hasScope c scope).trans hhas
      have howner' : w.scopeOwner? c scope = some owner := (hgrows.scopeOwner? c scope).trans howner
      let binding : Binding V E := .new key .single (entry.definition key)
      let between := w.emit resolution.logger .scopedSynthesizedInAncestor
      have hbetween : between.components = w.components := by simp [between]
      have hbody : (consult resolution catalog key c).run answer w =
          ((memoize resolution owner binding).bind fun stored =>
            .done (.ok (some stored.forwarding))).run answer between := by
        simp only [consult, hfind, hqualifier, hsingleton, hscope, ne_eq, not_true_eq_false,
          Bool.false_eq_true, if_false, Task.run_read, hhas', howner', Task.run_emit]
        rfl
      obtain ⟨stored, w', hrun, hstored, hgrows', hbinding⟩ :=
        memoize_elsewhere answer resolution hne binding hkey between
      refine ⟨.ok (some stored.forwarding), w', hbody.trans (Task.run_bind_of_ok hrun), ?_, ?_, ?_⟩
      · exact (World.Grows.of_components hbetween).trans hgrows'
      · simp [Except.map, hstored]
      · exact (hbinding _).trans ((World.binding?_of_components hbetween _).trans hnone)

/-- What a catalog gives for a required key leads to the same component in all worlds that have
grown from one; and nothing is stored for the key where it is asked for. -/
theorem settles_consult (w₀ : World V E) (catalog : Catalog V E) (hkey : key.nullable = false)
    (c : ComponentId) :
    w₀.Settles c key.identity (fun resolution => consult resolution catalog key c)
      (Except.map (Option.map fun binding => Stored.home ⟨c, binding⟩))
      fun _ w' => w'.binding? c key.identity = none := by
  cases hfind : catalog.find? key.type.id with
  | none => exact .of_fixed (.ok none) fun _ _ w _ => ⟨w, by simp [consult, hfind], rfl⟩
  | some entry =>
    by_cases hqualifier : entry.descriptor.qualifier.map Qualifier.identity = key.site.qualifier
    · cases hsingleton : entry.descriptor.isSingleton with
      | true =>
        refine .of_fixed (.ok (some (.new key .single (entry.sharedDefinition key)))) fun _ resolution w _ => ?_
        exact ⟨w.emit resolution.logger .singletonSynthesized,
          by simp [consult, hfind, hqualifier, hsingleton], by simp⟩
      | false =>
        cases hscope : entry.descriptor.scope with
        | none =>
          refine .of_fixed (.ok (some (.new key .factory (entry.definition key)))) fun _ resolution w _ => ?_
          exact ⟨w.emit resolution.logger .factorySynthesized,
            by simp [consult, hfind, hqualifier, hsingleton, hscope], by simp⟩
        | some scope => exact settles_consult_scoped w₀ hkey c hfind hqualifier hsingleton hscope
    · exact .of_fixed (.ok none) fun _ _ w _ => ⟨w, by simp [consult, hfind, hqualifier], rfl⟩

/-- What is synthesized from catalogs leads to the same component in all worlds that have grown from
one, and is stored where it is asked for. -/
theorem settles_askFactories (h : w₀.FromCatalogs) (hkey : key.nullable = false) (c : ComponentId)
    (factories : List (Factory V E)) (hfactories : ∀ factory ∈ factories, factory ∈ (w₀.config c).factories) :
    w₀.Settles c key.identity (fun resolution => askFactories resolution key c factories)
      (Except.map (Option.map Stored.home))
      fun reply w' => ∀ stored, reply = .ok (some stored) →
        stored.owner = c ∧ w'.binding? c key.identity = some stored.binding := by
  induction factories with
  | nil => exact ⟨.ok none, fun answer resolution w hgrows hnone => ⟨.ok none, w, rfl, .refl w, rfl, by simp⟩⟩
  | cons factory rest ih =>
    obtain ⟨later, hlater⟩ := ih fun other hother => hfactories other (List.mem_cons_of_mem _ hother)
    have hfactory := hfactories factory List.mem_cons_self
    obtain ⟨catalog, rfl⟩ := h c factory hfactory
    obtain ⟨verdict, hverdict⟩ := settles_consult w₀ catalog hkey c
    refine ⟨match verdict with
      | .error e => .error e
      | .ok none => later
      | .ok (some home) => .ok (some home), fun answer resolution w hgrows hnone => ?_⟩
    obtain ⟨reply, between, hrun, hbetween, hmeaning, hfree⟩ := hverdict answer resolution w hgrows hnone
    have hconsulted : (synthesis resolution (catalog.factory key c)).run answer w = .ok (reply, between) :=
      (Task.run_bind_of_ok hrun).trans rfl
    cases reply with
    | error e =>
      subst hmeaning
      exact ⟨.error e, between, (Task.run_bind_of_ok hconsulted).trans rfl, hbetween, rfl, by simp⟩
    | ok given =>
      cases given with
      | none =>
        subst hmeaning
        obtain ⟨reply, w', hrest, hgrows', hmeaning, hstored⟩ :=
          hlater answer resolution between (hgrows.trans hbetween) hfree
        exact ⟨reply, w', (Task.run_bind_of_ok hconsulted).trans hrest, hbetween.trans hgrows', hmeaning, hstored⟩
      | some binding =>
        subst hmeaning
        let reported := between.emit resolution.logger .synthesized
        have hreported : reported.components = between.components := by simp [reported]
        have hgrows' : w₀.Grows reported := (hgrows.trans hbetween).trans (.of_components hreported)
        obtain ⟨component, hc⟩ : ∃ component, reported.component? c = some component := by
          rw [← hgrows'.config] at hfactory
          exact World.exists_component_of_factory hfactory
        obtain ⟨w', hmemoize, hw', hbinding⟩ :=
          memoize_here answer resolution (binding.withKey key) hkey hc
            ((World.binding?_of_components hreported _).trans hfree)
        refine ⟨.ok (some ⟨c, binding.withKey key⟩), w', ?_, ?_, rfl, ?_⟩
        · exact (Task.run_bind_of_ok hconsulted).trans (Task.run_bind_of_ok hmemoize)
        · exact (hbetween.trans (.of_components hreported)).trans hw'
        · rintro stored ⟨⟩
          exact ⟨rfl, hbinding⟩

/-- A key is located at what is found for it; only if nothing is, it is located at what the
component synthesizes and stores. That leads to the same component in all worlds that have grown
from one. -/
theorem locate_run (h : w₀.FromCatalogs) (c : ComponentId) (key : Key) :
    ∃ fallback : Verdict V, ∀ (answer : Call V → World V E → Run V E (Reply V)) (resolution : Resolution)
      (w : World V E), w₀.Grows w →
        ∃ reply w', (locate resolution key c).run answer w = .ok (reply, w') ∧
          reply.map (Option.map Stored.home) =
            (w.found? key c).elim fallback (fun stored => .ok (some stored.home)) ∧
          (w.found? key c = none → ∀ stored, reply = .ok (some stored) →
            stored.owner = c ∧ w'.serving? c key = some stored.binding) := by
  have hkey : key.required.nullable = false := rfl
  obtain ⟨fallback, hfallback⟩ := settles_askFactories h hkey c
    (w₀.config c).factories.reverse fun factory hfactory => List.mem_reverse.mp hfactory
  refine ⟨fallback, fun answer resolution w hgrows => ?_⟩
  obtain ⟨between, hsearch, hcomponents⟩ := search_run answer resolution c key w
  have hbetween : w.Grows between := .of_components hcomponents
  cases hfound : w.found? key c with
  | some stored =>
    rw [hfound] at hsearch
    exact ⟨.ok (some stored), between, (Task.run_bind_of_ok hsearch).trans rfl, rfl, by simp⟩
  | none =>
    rw [hfound] at hsearch
    have hserving : between.serving? c key = none :=
      (World.serving?_of_components hcomponents).trans (World.serving?_eq_none hfound)
    obtain ⟨reply, w', hrun, hgrows', hmeaning, hstored⟩ :=
      hfallback answer resolution between (hgrows.trans hbetween) (World.binding?_required hserving)
    have hsynthesize : (synthesize resolution key c).run answer between = .ok (reply, w') := by
      rw [← (hgrows.trans hbetween).config] at hrun
      exact hrun
    refine ⟨reply, w', (Task.run_bind_of_ok hsearch).trans hsynthesize, hmeaning, fun _ stored hreply => ?_⟩
    obtain ⟨howner, hbinding⟩ := hstored stored hreply
    exact ⟨howner, hgrows'.serving?_of_required hserving hbinding⟩

end Resolution

end Runs

/-! ### The selection -/

section Selection

variable [Hashed V] {w₀ w w' : World V E} {c : ComponentId} {key : Key} {resolution : Resolution}

/-- A request is served by what is found for it, or else as the world it all began with has it. -/
theorem World.selection_eq (h : w₀.FromCatalogs) (c : ComponentId) (key : Key) :
    ∃ fallback : Verdict V, ∀ (w : World V E) (resolution : Resolution), w₀.Grows w →
      w.selection resolution c key =
        .ok ((w.found? key c).elim fallback fun stored => .ok (some stored.home)) := by
  obtain ⟨fallback, hfallback⟩ := Resolution.locate_run h c key
  refine ⟨fallback, fun w resolution hgrows => ?_⟩
  obtain ⟨reply, w', hrun, hreply, -⟩ := hfallback (Call.answer 0) resolution w hgrows
  have hlocate : w.run 0 (Resolution.locate resolution key c) = .ok (reply, w') := hrun
  rw [World.selection, hlocate, ← hreply]
  rfl

/-- The selection is what a key is located at by whoever looks it up next. -/
theorem World.selection_of_run (h : w.FromCatalogs) {looked : World V E}
    (hlooked : looked.components = w.components) {depth : Nat}
    {reply : Except ResolveError (Option (Stored V E))}
    (hrun : looked.run depth (Resolution.locate resolution key c) = .ok (reply, w')) :
    (∀ other, w.selection other c key = .ok (reply.map (Option.map Stored.home))) ∧
      (w.found? key c = none → ∀ stored, reply = .ok (some stored) →
        stored.owner = c ∧ w'.serving? c key = some stored.binding) := by
  obtain ⟨fallback, hfallback⟩ := Resolution.locate_run h c key
  have hfound : looked.found? key c = w.found? key c := foundWithin?_of_components hlooked _ c
  obtain ⟨first, between, hfirst, hreply, hstored⟩ :=
    hfallback (Call.answer depth) resolution looked (.of_components hlooked)
  obtain ⟨rfl, rfl⟩ := Prod.mk.inj (Except.ok.inj (hfirst.symm.trans hrun))
  rw [hfound] at hreply hstored
  refine ⟨fun other => ?_, hstored⟩
  obtain ⟨second, _, hsecond, hmeaning, -⟩ := hfallback (Call.answer 0) other w (.refl w)
  have hlocate : w.run 0 (Resolution.locate other key c) = .ok (second, _) := hsecond
  rw [World.selection, hlocate, hreply, ← hmeaning]
  rfl

/-- What a component itself stores is what serves its requests. -/
theorem World.selection_of_home? (h : w.FromCatalogs) {home : Context V → ComponentId}
    (hhome : w.home? c key = some home) : w.selection resolution c key = .ok (.ok (some home)) := by
  obtain ⟨fallback, hfallback⟩ := selection_eq h c key
  obtain ⟨binding, hserving, rfl⟩ := Option.map_eq_some_iff.mp hhome
  rw [hfallback w resolution (.refl w), found?_of_serving? hserving]
  rfl

/-- A top-level request enters a resolution of its key. -/
theorem Query.exists_resolve {q : Query V} {depth : Nat} {reply : Reply V}
    (h : w.run depth (q.task c) = .ok (reply, w')) :
    ∃ (depth' : Nat) (resolution : Resolution) (entered : World V E) (answered : Reply V),
      entered.components = w.components ∧
        entered.run depth' (Resolution.resolve c [] resolution q.key q.parameters) = .ok (answered, w') := by
  obtain ⟨answered, between, henter, hreply⟩ := Task.run_bind_eq_ok h
  obtain ⟨-, rfl⟩ := Prod.mk.inj (Except.ok.inj hreply)
  cases depth with
  | zero => simp [Task.enter, Task.run, Call.answer] at henter
  | succ depth =>
    let resolution : Resolution := ⟨w.nextResolution, (w.config c).logger <|> none⟩
    refine ⟨depth, resolution, { w with nextResolution := w.nextResolution + 1 }, answered, rfl, ?_⟩
    simp only [Task.enter, Task.run] at henter
    split at henter
    · next hanswer =>
      obtain ⟨rfl, rfl⟩ := Prod.mk.inj (Except.ok.inj henter)
      exact hanswer
    · simp at henter

/-- What a request is served by is stored where the request is made, unless it was found in an
ancestor. -/
theorem World.home?_of_run (h : w.FromCatalogs) {q : Query V} {home : Context V → ComponentId}
    (hfound : w.found? q.key c = none)
    (hselection : w.selection resolution c q.key = .ok (.ok (some home))) {depth : Nat} {reply : Reply V}
    (hrun : w.run depth (q.task c) = .ok (reply, w')) : w'.home? c q.key = some home := by
  obtain ⟨depth', resolution', entered, answered, hcomponents, hresolve⟩ := Query.exists_resolve hrun
  let looked := entered.emit resolution'.logger (.lookup q.key)
  have hlooked : looked.components = w.components := by simp [looked, hcomponents]
  unfold World.run Resolution.resolve at hresolve
  rw [Task.run_emit, if_neg (by simp)] at hresolve
  obtain ⟨first, between, hlocate, hrest⟩ := Task.run_bind_eq_ok hresolve
  obtain ⟨hselected, hstored⟩ := selection_of_run h hlooked hlocate
  have hverdict := Except.ok.inj ((hselected resolution).symm.trans hselection)
  match first, hverdict with
  | .ok (some stored), hverdict =>
    obtain ⟨howner, hserving⟩ := hstored hfound stored rfl
    obtain rfl : stored.home = home := Option.some.inj (Except.ok.inj hverdict)
    have hcatalogs : looked.FromCatalogs := h.grows (.of_components hlooked)
    have hlocated : looked.Grows between :=
      Task.Yields.grows hcatalogs (Resolution.locate_yields (Conduct.lawful_growing hcatalogs) c) hlocate
    -- Nothing that the rest of the resolution does takes the binding away again.
    have hbetween : between.Grows w' := by
      refine Task.Yields.grows (P := fun _ => True) (hcatalogs.grows hlocated) ?_ hrest
      apply (Stored.obtain_keeps (Stored.admitted_free _ _ _)).bind
      intro result _
      cases result with
      | ok object => exact .done trivial
      | error e => exact Task.fail_yields _ _ trivial
    refine hbetween.home? (Option.map_eq_some_iff.mpr ⟨stored.binding, hserving, ?_⟩)
    rw [← howner]

/-- Two sequences of earlier requests after which a component and its ancestors store, for a key,
either no binding or one that leads to the same component have the next request for the key served
by the same component. -/
theorem World.History.selection_agree (h : w₀.FromCatalogs) {w₁ w₂ : World V E} (h₁ : w₀.History w₁)
    (h₂ : w₀.History w₂) (hagree : ∀ d, w₀.Above c d → w₁.home? d key = w₂.home? d key)
    (resolution₁ resolution₂ : Resolution) :
    ∃ verdict, w₁.selection resolution₁ c key = .ok verdict ∧
      w₂.selection resolution₂ c key = .ok verdict := by
  obtain ⟨fallback, hfallback⟩ := World.selection_eq h c key
  have helim (found : Option (Stored V E)) :
      found.elim fallback (fun stored => .ok (some stored.home)) =
        (found.map Stored.home).elim fallback fun home => .ok (some home) := by cases found <;> rfl
  have hfound : (w₁.found? key c).map Stored.home = (w₂.found? key c).map Stored.home :=
    World.foundWithin?_agree (h₁.grows h) (h₂.grows h) hagree (c + 1)
  refine ⟨_, hfallback w₁ resolution₁ (h₁.grows h), ?_⟩
  rw [hfallback w₂ resolution₂ (h₂.grows h), helim, helim, hfound]

/-- What a component itself stores serves its requests ever after. -/
theorem World.History.selection_of_home? (h : w.FromCatalogs) {home : Context V → ComponentId}
    (hhome : w.home? c key = some home) (hhistory : w.History w') :
    w'.selection resolution c key = .ok (.ok (some home)) := by
  have hgrows := hhistory.grows h
  exact World.selection_of_home? (h.grows hgrows) (hgrows.home? hhome)

/-- The component that serves a key is determined by where the bindings that a component and its
ancestors store for the key lead to, whichever requests they were stored by; what a component
stores itself decides for good; and what a request is served by, when nothing was stored on the way
up, is what later requests of the component are served by, whatever is requested in between. -/
theorem World.selection_determined (h : w₀.FromCatalogs) (c : ComponentId) (key : Key) :
    (∀ {w₁ w₂ : World V E} (resolution₁ resolution₂ : Resolution), w₀.History w₁ → w₀.History w₂ →
      (∀ d, w₀.Above c d → w₁.home? d key = w₂.home? d key) →
        ∃ verdict, w₁.selection resolution₁ c key = .ok verdict ∧
          w₂.selection resolution₂ c key = .ok verdict) ∧
      (∀ {w w' : World V E} (resolution : Resolution) {home : Context V → ComponentId},
        w₀.History w → w.home? c key = some home → w.History w' →
          w'.selection resolution c key = .ok (.ok (some home))) ∧
      ∀ {w w' w'' : World V E} (resolution other : Resolution) {home : Context V → ComponentId},
        w₀.History w → (∀ d, w₀.Above c d → w.home? d key = none) →
          w.selection resolution c key = .ok (.ok (some home)) →
            (∃ (depth : Nat) (q : Query V) (reply : Reply V), q.key = key ∧
              w.run depth (q.task c) = .ok (reply, w')) →
              w'.History w'' → w''.selection other c key = .ok (.ok (some home)) := by
  refine ⟨fun resolution₁ resolution₂ h₁ h₂ hagree => h₁.selection_agree h h₂ hagree _ _, ?_, ?_⟩
  · intro w w' resolution home hw hhome hhistory
    exact hhistory.selection_of_home? (h.grows (hw.grows h)) hhome
  · rintro w w' w'' resolution other home hw hnone hselection ⟨depth, q, reply, rfl, hrun⟩ hafter
    have hcatalogs : w.FromCatalogs := h.grows (hw.grows h)
    have hfound : w.found? q.key c = none := foundWithin?_eq_none (hw.grows h) hnone (c + 1)
    have hhome : w'.home? c q.key = some home := home?_of_run hcatalogs hfound hselection hrun
    have hanswers : w.History w' := .single ⟨depth, c, q, reply, hrun⟩
    exact hafter.selection_of_home? (hcatalogs.grows (hanswers.grows hcatalogs)) hhome

end Selection

/-- An entry for one of the types, which is made without arguments, in a scope if one is given. -/
def CatalogEntry.nth (n : UInt64) (scope : Option ScopeTag) : CatalogEntry Unit Unit :=
  ⟨n.toNat, ⟨.nth n, "Factory", .everywhere, false, none, scope, []⟩, fun _ => pure (.ok (⟨n⟩, ()))⟩

/-- A parent and its child, which fall back on the same catalog. The second type of the catalog
belongs to a scope of the parent. -/
def World.family : World Unit Unit :=
  let config : ComponentConfig Unit Unit :=
    ⟨none, [Catalog.factory ⟨[.nth 0 none, .nth 1 (some DefaultScope.app.tag)]⟩]⟩
  { World.initial () with
    components := [⟨[DefaultScope.app.tag], [], [], config, true⟩, ⟨[], [0], [], config, true⟩] }

/-- The components of the family fall back on catalogs only. -/
theorem World.fromCatalogs_family : World.family.FromCatalogs := by
  intro c factory hfactory
  match c, hfactory with
  | 0, hfactory => exact ⟨_, List.mem_singleton.mp hfactory⟩
  | 1, hfactory => exact ⟨_, List.mem_singleton.mp hfactory⟩
  | _ + 2, hfactory => simp [World.family, World.config, World.component?, ComponentConfig.default] at hfactory

/-- Above the child are the child and its parent. -/
theorem World.above_family {d : ComponentId} (h : World.family.Above 1 d) : d = 1 ∨ d = 0 := by
  rcases h.cases_head with rfl | ⟨parent, hparent, hrest⟩
  · exact .inl rfl
  · obtain rfl := List.mem_singleton.mp hparent
    rcases hrest.cases_head with rfl | ⟨grandparent, hgrandparent, -⟩
    · exact .inr rfl
    · exact absurd hgrandparent List.not_mem_nil

/-- A request for the second type leaves the child with a binding that leads to the parent, for
good, and makes no difference to the first type. That one the child serves itself once it did, even
though the parent comes to store a binding for it, too. -/
theorem World.selection_determined_family :
    (∃ w : World Unit Unit, World.family.History w ∧ w.home? 1 (.of (.nth 1)) = some (fun _ => 0) ∧
      (∀ w', w.History w' → w'.selection .silent 1 (.of (.nth 1)) = .ok (.ok (some fun _ => 0))) ∧
      ∃ verdict, World.family.selection .silent 1 (.of (.nth 0)) = .ok verdict ∧
        w.selection .silent 1 (.of (.nth 0)) = .ok verdict) ∧
      ∃ w : World Unit Unit, World.family.History w ∧ w.home? 0 (.of (.nth 0)) = some (fun _ => 0) ∧
        w.selection .silent 1 (.of (.nth 0)) = .ok (.ok (some fun _ => 1)) := by
  have hnone (d : ComponentId) (hd : World.family.Above 1 d) :
      World.family.home? d (.of (.nth 0)) = none := by
    rcases above_family hd with rfl | rfl <;> rfl
  constructor
  · obtain ⟨w, hanswers, hstored, hparent, hchild⟩ : ∃ w : World Unit Unit, World.family.Answers w ∧
        w.home? 1 (.of (.nth 1)) = some (fun _ => 0) ∧ w.home? 0 (.of (.nth 0)) = none ∧
        w.home? 1 (.of (.nth 0)) = none :=
      ⟨_, ⟨3, 1, .get (.nth 1) [], _, rfl⟩, rfl, rfl, rfl⟩
    refine ⟨w, .single hanswers, hstored, fun w' hlater => ?_, ?_⟩
    · exact (selection_determined fromCatalogs_family 1 (.of (.nth 1))).2.1 .silent (.single hanswers)
        hstored hlater
    · refine (selection_determined fromCatalogs_family 1 (.of (.nth 0))).1 _ _ .refl (.single hanswers) ?_
      intro d hd
      rw [hnone d hd]
      rcases above_family hd with rfl | rfl
      · exact hchild.symm
      · exact hparent.symm
  · obtain ⟨w, w', reply, hrun, hanswers, hparent⟩ : ∃ (w w' : World Unit Unit) (reply : Reply Unit),
        World.family.run 2 ((Query.get (.nth 0) []).task 1) = .ok (reply, w) ∧ w.Answers w' ∧
          w'.home? 0 (.of (.nth 0)) = some fun _ => 0 :=
      ⟨_, _, _, rfl, ⟨2, 0, .get (.nth 0) [], _, rfl⟩, rfl⟩
    refine ⟨w', .tail (.single ⟨_, _, _, _, hrun⟩) hanswers, hparent, ?_⟩
    exact (selection_determined fromCatalogs_family 1 (.of (.nth 0))).2.2 .silent .silent .refl hnone rfl
      ⟨_, _, _, rfl, hrun⟩ (.single hanswers)

/-- The child serves a type itself if it is asked first, and leaves it to the parent if the parent
is asked first. -/
theorem World.redirected_by_parent :
    World.family.selection .silent 1 (.of (.nth 0)) = .ok (.ok (some fun _ => 1)) ∧
      ∃ w, World.family.History w ∧ w.selection .silent 1 (.of (.nth 0)) = .ok (.ok (some fun _ => 0)) :=
  ⟨rfl, _, .single ⟨2, 0, .get (.nth 0) [], _, rfl⟩, rfl⟩

end Injection

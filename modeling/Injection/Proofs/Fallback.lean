import Injection.Proofs.Accrual

/-!
# What factories synthesize

A request that nothing is found for is put to the factories of the component that it is made at. What comes of
it is decided by the first of them, the last added first, that does not decline: its error is the answer, and its
binding is stored in the component under the required key and serves the request from there. Once it is stored,
nothing that asks for the key at the component, content with the absence of a value or not, is put to a factory
again, and the component goes on storing that binding.

Factories are arbitrary but for one thing: they do not themselves store anything in the component.
-/

namespace Injection

variable {V E : Type}

/-- Asked for a key at a component, the factory stores nothing there itself. -/
def Factory.Spares (factory : Factory V E) (c : ComponentId) (key : Key) : Prop :=
  ∀ {resolution : Resolution} {w w' : World V E} {reply : SynthesisReply V E},
    factory.Replies resolution key c w reply w' → w'.bindings c = w.bindings c

/-- The call asks for a key, or for its nullable form, at a component. -/
def Call.AsksFor (request : Call V) (c : ComponentId) (key : Key) : Prop :=
  ∃ path resolution asked parameters, request = .resolve c path resolution asked parameters ∧ asked.site = key.site

/-- What comes of a request for a key that nothing is found for at a component: some factories are asked, which
come to a reply and leave some world. -/
structure World.Improvises [Hashed V] (w : World V E) (c : ComponentId) (path : List Key) (resolution : Resolution)
    (key : Key) (parameters : Parameters V) (asked : List (Factory V E)) (reply : SynthesisReply V E)
    (u : World V E) : Prop where
  /-- The factories are asked for the required key, the last added first. -/
  inquiry : Inquiry resolution key.required c (w.config c).factories.reverse
    (w.emit resolution.logger (.lookup key)) asked reply u
  /-- The request asks these factories and no others. -/
  asks : ∀ {others}, (Call.resolve c path resolution key parameters).Asks w others ↔ others = asked
  /-- If all that are asked decline, all are asked. -/
  exhausted : reply = .ok none → asked = (w.config c).factories.reverse
  /-- Otherwise those behind the last one asked make no difference, whichever there are. -/
  settled : reply ≠ .ok none → asked <+: (w.config c).factories.reverse ∧
    ∀ others, Inquiry resolution key.required c (asked ++ others) (w.emit resolution.logger (.lookup key)) asked reply u
  /-- Whatever the factories do, they store nothing in the component. -/
  spared : u.bindings c = w.bindings c
  /-- An error is the answer as it is, whether or not the key is nullable. -/
  failed : ∀ {e}, reply = .error e → ∃ u', u.Coincides u' ∧
    ∀ depth, Call.answer (depth + 1) (.resolve c path resolution key parameters) w = .ok (.error e, u')
  /-- If there is no binding, the answer depends on whether the key is nullable. -/
  declined : reply = .ok none → ∃ u', u.Coincides u' ∧
    ∀ depth, Call.answer (depth + 1) (.resolve c path resolution key parameters) w =
      .ok (if key.nullable then .ok none else .error (.unresolved key), u')
  /-- A binding is stored under the required key, and the request is served by what is stored then, in the context
  of the component. -/
  stored : ∀ {binding}, reply = .ok (some binding) → ∃ u', (u.memoize c (binding.withKey key.required)).Coincides u' ∧
    u'.bindings c = w.bindings c ++ [binding.withKey key.required] ∧
    u'.binding? c key.required.identity = some (binding.withKey key.required) ∧
      ∀ depth, Call.answer (depth + 1) (.resolve c path resolution key parameters) w =
        (((Stored.mk c (binding.withKey key.required)).obtain
          { component := c, key, parameters, path := path ++ [key], resolution }).bind
            (Resolution.deliver resolution)).run (Call.answer depth) u'

/-- A request at a component is served by a binding that is stored there: looking it up changes nothing but what
has been reported, and the answer comes of the value of that binding in the context of the component. -/
def World.Serves [Hashed V] (w : World V E) (c : ComponentId) (path : List Key) (resolution : Resolution) (key : Key)
    (parameters : Parameters V) (binding : Binding V E) : Prop :=
  ∃ u, w.Coincides u ∧
    (∀ answer, (Resolution.locate resolution key c).run answer (w.emit resolution.logger (.lookup key)) =
      .ok (.ok (some ⟨c, binding⟩), u)) ∧
    ∀ depth, Call.answer (depth + 1) (.resolve c path resolution key parameters) w =
      (((Stored.mk c binding).obtain { component := c, key, parameters, path := path ++ [key], resolution }).bind
        (Resolution.deliver resolution)).run (Call.answer depth) u

section Synthesis

variable {c : ComponentId} {path : List Key} {resolution : Resolution} {key : Key} {parameters : Parameters V}
  {w w' : World V E} {asked : List (Factory V E)} {reply : SynthesisReply V E} {u : World V E}

/-- An inquiry of factories that store nothing in the component leaves what is stored there. -/
theorem Inquiry.bindings_eq {factories : List (Factory V E)}
    (h : Inquiry resolution key c factories w asked reply u) (hspares : ∀ factory ∈ factories, factory.Spares c key) :
    u.bindings c = w.bindings c :=
  h.preserves (P := fun v => v.bindings c = w.bindings c)
    (fun factory hfactory _ _ _ hreplies hv => (hspares factory hfactory hreplies).trans hv) rfl

/-- Where the components stay as they are, so does what they store. -/
theorem World.bindings_of_components (h : w'.components = w.components) (c : ComponentId) :
    w'.bindings c = w.bindings c := by
  simp [World.bindings, World.component?, h]

/-- Storing a binding in one component changes no other. -/
theorem World.bindings_memoize_of_ne {d : ComponentId} (hne : d ≠ c) (binding : Binding V E) :
    (w.memoize c binding).bindings d = w.bindings d :=
  (w.bindings_memoize c d binding).resolve_right fun ⟨heq, _⟩ => hne heq

/-- A binding that is stored under a free key is added to what the component stores. -/
theorem World.bindings_memoize_of_free {component : Component V E} {binding : Binding V E}
    (hc : w.component? c = some component) (hfree : w.binding? c binding.key.identity = none) :
    (w.memoize c binding).bindings c = w.bindings c ++ [binding] := by
  rcases w.bindings_memoize c c binding with hsame | ⟨-, -, hadded⟩
  · have hstored := binding?_memoize hc hfree
    rw [binding?_eq_find?, hsame, ← binding?_eq_find?, hfree] at hstored
    cases hstored
  · exact hadded

/-- A request asks the factories that it locates its key by. -/
theorem Call.asks_iff {located : Except ResolveError (Option (Stored V E))}
    (hfresh : ∀ visited ∈ path, visited.site ≠ key.site)
    (h : Resolution.Locates resolution key c (w.emit resolution.logger (.lookup key)) asked located w')
    {others : List (Factory V E)} : (Call.resolve c path resolution key parameters).Asks w others ↔ others = asked := by
  constructor
  · intro hasks
    cases hasks with
    | located _ hlocates => exact (h.unique hlocates).1
    | cyclic hmem hsite => exact absurd hsite (hfresh _ hmem)
  · rintro rfl
    exact .located hfresh h

/-- Every call asks some factories, or none. -/
theorem Call.exists_asks (request : Call V) (w : World V E) : ∃ asked, request.Asks w asked := by
  cases request with
  | obtain owner key context => exact ⟨[], .passed⟩
  | resolve c path resolution key parameters =>
    by_cases hfresh : ∀ visited ∈ path, visited.site ≠ key.site
    · obtain ⟨asked, located, u, -, hlocates⟩ :=
        Resolution.exists_locates resolution key c (w.emit resolution.logger (.lookup key))
      exact ⟨asked, .located hfresh hlocates⟩
    · push Not at hfresh
      obtain ⟨visited, hmem, hsite⟩ := hfresh
      exact ⟨[], .cyclic hmem hsite⟩

/-- A key that a component stores a binding for, be it under its required form, is not put to any factory. -/
theorem Call.asks_eq_nil {request : Call V} {binding : Binding V E} (h : request.AsksFor c key)
    (hstored : w.binding? c key.required.identity = some binding) (hasks : request.Asks w asked) : asked = [] := by
  obtain ⟨path, resolution, other, parameters, rfl, hsite⟩ := h
  cases hasks with
  | cyclic _ _ => rfl
  | located _ hlocates =>
    cases hlocates with
    | found _ _ => rfl
    | inquired hfound _ _ =>
      have hfree := World.binding?_required (World.serving?_eq_none hfound)
      have hidentity : other.required.identity = key.required.identity := by
        simp only [Key.identity, KeyId.mk.injEq]
        exact ⟨hsite, rfl⟩
      rw [World.binding?_of_components (World.emit_components _ _ _), hidentity, hstored] at hfree
      cases hfree

/-- A key that a component stores a binding for under its required form is served by that, or else by what the
component stores under the key itself. -/
theorem World.serves_of_stored [Hashed V] {binding : Binding V E} {asked : Key} (hsite : asked.site = key.site)
    (hstored : w.binding? c key.required.identity = some binding)
    (hfresh : ∀ visited ∈ path, visited.site ≠ asked.site) :
    w.Serves c path resolution asked parameters ((w.binding? c asked.identity).getD binding) := by
  have hlooked := w.coincides_emit resolution.logger (.lookup asked)
  have hidentity : asked.required.identity = key.required.identity := by
    simp only [Key.identity, KeyId.mk.injEq]
    exact ⟨hsite, rfl⟩
  have hserving : (w.emit resolution.logger (.lookup asked)).serving? c asked =
      some ((w.binding? c asked.identity).getD binding) := by
    rw [World.serving?_eq, World.binding?_of_components hlooked.components, World.binding?_of_components
      hlooked.components, hidentity, hstored]
    cases hnullable : asked.nullable with
    | false =>
      have hrequired : asked.identity = key.required.identity := by
        rw [← hidentity]
        simp [Key.identity, Key.required, hnullable, Key.site]
      simp [hrequired, hstored]
    | true => cases w.binding? c asked.identity <;> simp
  obtain ⟨u, hlocate, hu⟩ := Resolution.locate_of_found (World.found?_of_serving? hserving) resolution
  exact ⟨u, hlooked.trans hu, hlocate, fun depth => Call.answer_resolve hfresh hlocate depth⟩

end Synthesis

/-- A catalog that is consulted stores nothing in the component. What it stores, it stores in the owner of a scope,
and forwards to the binding that is stored there then. -/
inductive Catalog.Gives (catalog : Catalog V E) (key : Key) (c : ComponentId) (w w' : World V E) :
    SynthesisReply V E → Prop
  | nothing {reply : SynthesisReply V E} : (∀ binding, reply ≠ .ok (some binding)) →
      w'.components = w.components → Gives catalog key c w w' reply
  | kept {binding : Binding V E} : binding.kind = .single → w'.components = w.components →
      Gives catalog key c w w' (.ok (some binding))
  | made {entry : CatalogEntry V E} : entry ∈ catalog.entries → w'.components = w.components →
      Gives catalog key c w w' (.ok (some (.new key .factory (entry.definition key))))
  | forwarded {owner : ComponentId} {component : Component V E} {binding : Binding V E} : owner ≠ c →
      w.component? owner = some component → binding.key = key → binding.kind = .single →
        w'.components = (w.memoize owner binding).components →
          Gives catalog key c w w'
            (.ok (some (Stored.forwarding ⟨owner, (w.binding? owner key.identity).getD binding⟩)))

/-- Consulting a catalog comes to what the catalog gives. -/
theorem Resolution.consult_gives {resolution : Resolution} {catalog : Catalog V E} {key : Key} {c : ComponentId}
    {w w' : World V E} {reply : SynthesisReply V E} {answer : Call V → World V E → Run V E (Reply V)}
    (h : (consult resolution catalog key c).run answer w = .ok (reply, w')) : catalog.Gives key c w w' reply := by
  have hended {u : World V E} {result : SynthesisReply V E} (hu : u.components = w.components)
      (hrun : (Task.done result).run answer u = .ok (reply, w')) : reply = result ∧ w'.components = w.components := by
    obtain ⟨rfl, rfl⟩ := Prod.mk.inj (Except.ok.inj hrun)
    exact ⟨rfl, hu⟩
  have hreported {event : Event} {result : SynthesisReply V E}
      (hrun : (Task.emit resolution event >>= fun _ => Task.done result).run answer w = .ok (reply, w')) :
      reply = result ∧ w'.components = w.components := hended (World.emit_components _ _ _) hrun
  unfold consult at h
  split at h
  · obtain ⟨rfl, hsame⟩ := hended rfl h
    exact .nothing (by simp) hsame
  · next entry hentry =>
    split at h
    · obtain ⟨rfl, hsame⟩ := hended rfl h
      exact .nothing (by simp) hsame
    · split at h
      · obtain ⟨rfl, hsame⟩ := hreported h
        exact .kept rfl hsame
      · split at h
        · obtain ⟨rfl, hsame⟩ := hreported h
          exact .made (List.mem_of_find?_eq_some hentry) hsame
        · rw [Task.run_read] at h
          split at h
          · obtain ⟨rfl, hsame⟩ := hreported h
            exact .kept rfl hsame
          · next hhas =>
            split at h
            · obtain ⟨rfl, hsame⟩ := hended rfl h
              exact .nothing (by simp) hsame
            · next owner howner =>
              -- The owner declares the scope, which the component does not.
              have hdeclares := World.hasScope_of_scopeOwner? howner
              obtain ⟨component, hcomponent⟩ := World.exists_component_of_scope hdeclares
              have hasked := w.coincides_emit resolution.logger .scopedSynthesizedInAncestor
              rw [Task.run_emit] at h
              obtain ⟨stored, between, hmemoize, hrest⟩ := Task.run_bind_eq_ok h
              obtain ⟨rfl, rfl⟩ := Prod.mk.inj (Except.ok.inj hrest)
              obtain ⟨u, hrun, hu⟩ := memoize_run answer resolution owner (.new key .single (entry.definition key))
                (w.emit resolution.logger .scopedSynthesizedInAncestor)
              obtain ⟨rfl, rfl⟩ := Prod.mk.inj (Except.ok.inj (hmemoize.symm.trans hrun))
              rw [World.binding?_of_components hasked.components]
              exact .forwarded (fun heq => hhas (heq ▸ hdeclares)) hcomponent rfl rfl
                (hu.trans (hasked.memoize owner _).components)

/-- Whatever a catalog gives for a component, it has stored nothing there. -/
theorem Catalog.Gives.bindings_eq {catalog : Catalog V E} {key : Key} {c : ComponentId} {w w' : World V E}
    {reply : SynthesisReply V E} (h : catalog.Gives key c w w' reply) : w'.bindings c = w.bindings c := by
  cases h with
  | nothing _ hsame | kept _ hsame | made _ hsame => exact World.bindings_of_components hsame c
  | forwarded hne _ _ _ hstored =>
    rw [World.bindings_of_components hstored, World.bindings_memoize_of_ne hne.symm]

/-- What the factory of a catalog replies is what the catalog gives. -/
theorem Catalog.gives_of_replies {catalog : Catalog V E} {resolution : Resolution} {key : Key} {c : ComponentId}
    {w w' : World V E} {reply : SynthesisReply V E} (h : catalog.factory.Replies resolution key c w reply w') :
    catalog.Gives key c w w' reply := by
  obtain ⟨_, between, hconsult, hrest⟩ := Task.run_bind_eq_ok (h fun _ _ => .error .tooDeep)
  obtain ⟨rfl, rfl⟩ := Prod.mk.inj (Except.ok.inj hrest)
  exact Resolution.consult_gives hconsult

/-- So catalogs are among the factories that store nothing in the component themselves. -/
theorem Catalog.spares (catalog : Catalog V E) (c : ComponentId) (key : Key) : catalog.factory.Spares c key :=
  fun hreplies => (gives_of_replies hreplies).bindings_eq

variable [Hashed V]

/-- A key that is located at nothing is answered at once. -/
theorem Resolution.conclude_none (path : List Key) (resolution : Resolution) (key : Key) (parameters : Parameters V)
    (u : World V E) : ∃ u', u.Coincides u' ∧ ∀ answer,
      (conclude path resolution key parameters (.ok none)).run answer u =
        .ok (if key.nullable then .ok none else .error (.unresolved key), u') := by
  cases hnullable : key.nullable with
  | false =>
    refine ⟨_, u.coincides_emit resolution.logger (.failure (.unresolved key)), fun answer => ?_⟩
    simp [conclude, hnullable, Task.fail]
  | true =>
    refine ⟨_, u.coincides_emit resolution.logger .nullFallback, fun answer => ?_⟩
    simp [conclude, hnullable]

omit [Hashed V] in
/-- The binding that an inquiry comes to is stored in the component under the key asked for, if that is free. -/
theorem Inquiry.stored {resolution : Resolution} {key : Key} {c : ComponentId} {w u u' : World V E}
    {factories asked : List (Factory V E)} {binding : Binding V E} (hc : ∀ factory ∈ factories, factory ∈ (w.config c).factories)
    (h : Inquiry resolution key c factories w asked (.ok (some binding)) u)
    (hfree : u.binding? c key.identity = none) (hu' : (u.memoize c (binding.withKey key)).Coincides u') :
    SynthesisReply.stored key c (.ok (some binding)) u = .ok (some ⟨c, binding.withKey key⟩) ∧
      u'.bindings c = u.bindings c ++ [binding.withKey key] ∧
        u'.binding? c key.identity = some (binding.withKey key) := by
  obtain ⟨factory, hfactory⟩ := h.exists_factory (by simp)
  obtain ⟨component, hcomponent⟩ := h.exists_component (World.exists_component_of_factory (hc factory hfactory))
  have hbindings := World.bindings_of_components hu'.components c
  refine ⟨?_, ?_, ?_⟩
  · simp [SynthesisReply.stored, hfree, Except.map]
  · exact hbindings.trans (World.bindings_memoize_of_free hcomponent hfree)
  · exact (World.binding?_of_components hu'.components _).trans (World.binding?_memoize hcomponent hfree)

/-- A request that nothing is found for comes to what its factories come to. If they come to a binding, that is
stored once the key is located. -/
theorem World.exists_improvises {w : World V E} {c : ComponentId} {path : List Key} {key : Key}
    (resolution : Resolution) (parameters : Parameters V) (hfresh : ∀ visited ∈ path, visited.site ≠ key.site)
    (hfound : w.found? key c = none) (hspares : ∀ factory ∈ (w.config c).factories, factory.Spares c key.required) :
    ∃ asked reply u, w.Improvises c path resolution key parameters asked reply u ∧
      ∀ binding, reply = .ok (some binding) →
        ((Call.resolve c path resolution key parameters).located w).binding? c key.required.identity =
          some (binding.withKey key.required) := by
  have hsame : (w.emit resolution.logger (.lookup key)).components = w.components := World.emit_components _ _ _
  have hgrows : w.Grows (w.emit resolution.logger (.lookup key)) := .of_components hsame
  obtain ⟨asked, located, u', hlocate, hlocates⟩ :=
    Resolution.exists_locates resolution key c (w.emit resolution.logger (.lookup key))
  have hanswer (depth : Nat) : Call.answer (depth + 1) (.resolve c path resolution key parameters) w =
      (Resolution.conclude path resolution key parameters located).run (Call.answer depth) u' :=
    Call.answer_resolve hfresh hlocate depth
  have hlocated : (Call.resolve c path resolution key parameters).located w = u' :=
    Call.located_resolve hfresh hlocate
  have hasks {others : List (Factory V E)} :
      (Call.resolve c path resolution key parameters).Asks w others ↔ others = asked :=
    Call.asks_iff hfresh hlocates
  cases hlocates with
  | found hfound' _ =>
    have hnone : (w.emit resolution.logger (.lookup key)).found? key c = none :=
      (foundWithin?_of_components hsame _ c).trans hfound
    simp [hnone] at hfound'
  | @inquired _ reply u _ _ hinquiry hu' =>
    have hfactories : ∀ factory ∈ (w.config c).factories.reverse,
        factory ∈ ((w.emit resolution.logger (.lookup key)).config c).factories := fun factory hfactory =>
      hgrows.config c ▸ List.mem_reverse.mp hfactory
    rw [hgrows.config] at hinquiry
    have hspared : u.bindings c = w.bindings c := by
      refine (hinquiry.bindings_eq fun factory hfactory => hspares factory (List.mem_reverse.mp hfactory)).trans ?_
      exact World.bindings_of_components hsame c
    have hfree : u.binding? c key.required.identity = none := by
      rw [World.binding?_eq_find?, hspared, ← World.binding?_eq_find?]
      exact binding?_required (serving?_eq_none hfound)
    refine ⟨asked, reply, u, ⟨hinquiry, hasks, ?_, hinquiry.of_settled, hspared, ?_, ?_, ?_⟩, ?_⟩
    · rintro rfl
      exact hinquiry.asked_of_none
    · rintro e rfl
      refine ⟨_, hu'.trans (World.coincides_emit _ resolution.logger (.failure e)), fun depth => ?_⟩
      exact (hanswer depth).trans rfl
    · rintro rfl
      obtain ⟨last, hlast, hrun⟩ := Resolution.conclude_none path resolution key parameters u'
      exact ⟨last, hu'.trans hlast, fun depth => (hanswer depth).trans (hrun _)⟩
    · rintro binding rfl
      obtain ⟨hstored, hbindings, hbinding⟩ := hinquiry.stored hfactories hfree hu'
      refine ⟨u', hu', hbindings.trans (by rw [hspared]), hbinding, fun depth => (hanswer depth).trans ?_⟩
      rw [hstored]
      rfl
    · rintro binding rfl
      exact hlocated ▸ (hinquiry.stored hfactories hfree hu').2.2

/-- Whatever happens before and after, a request at a component for a key that nothing is found for is put to the
component's factories in order, up to the first that does not decline, whose error is the answer, and whose binding
is stored under the required key and serves the request. From then on the component goes on storing that binding,
and no request for the key or its nullable form there is put to any factory: those that are not refused for what is
under construction are served by that binding, unless the component has one for the nullable form as such. -/
theorem World.Course.synthesized_once {start v : World V E} {before after : List (Moment V E)}
    {last : Option (World V E)} {c : ComponentId} {path : List Key} {resolution : Resolution} {key : Key}
    {parameters : Parameters V}
    (hcourse : start.Course (before ++ .called (.resolve c path resolution key parameters) v :: after) last)
    (hfresh : ∀ visited ∈ path, visited.site ≠ key.site) (hfound : v.found? key c = none)
    (hspares : ∀ factory ∈ (v.config c).factories, factory.Spares c key.required) :
    ∃ asked reply u, v.Improvises c path resolution key parameters asked reply u ∧
      ∀ binding, reply = .ok (some binding) →
        (∀ request v', .called request v' ∈ after →
          v'.binding? c key.required.identity = some (binding.withKey key.required) ∧
            (request.AsksFor c key → ∀ others, request.Asks v' others ↔ others = []) ∧
            ∀ path resolution asked parameters, request = .resolve c path resolution asked parameters →
              asked.site = key.site → (∀ visited ∈ path, visited.site ≠ asked.site) →
                v'.Serves c path resolution asked parameters
                  ((v'.binding? c asked.identity).getD (binding.withKey key.required))) ∧
          ∀ w ∈ last, w.binding? c key.required.identity = some (binding.withKey key.required) := by
  obtain ⟨asked, reply, u, himprovises, hlocated⟩ := World.exists_improvises resolution parameters hfresh hfound hspares
  obtain ⟨hafter, hlast⟩ := hcourse.after_called
  refine ⟨asked, reply, u, himprovises, fun binding hreply => ⟨fun request v' hcalled => ?_, fun w hw => ?_⟩⟩
  · have hstored := hafter hcalled (hlocated binding hreply)
    refine ⟨hstored, fun hasksFor others => ⟨Call.asks_eq_nil hasksFor hstored, ?_⟩, ?_⟩
    · rintro rfl
      obtain ⟨asked', hasked'⟩ := request.exists_asks v'
      exact Call.asks_eq_nil hasksFor hstored hasked' ▸ hasked'
    · rintro path' resolution' asked' parameters' - hsite hfresh'
      exact World.serves_of_stored hsite hstored hfresh'
  · exact hlast w hw (hlocated binding hreply)

/-- A factory that has a catalog look for another type, and declines whatever it is asked for. -/
def Factory.scout : Factory Unit Unit := fun _ c =>
  .consult ⟨[.nth 1 (some DefaultScope.app.tag)]⟩ (.of (.nth 1)) c fun _ => .answer (.ok none)

/-- A factory that has the same binding for whatever it is asked for, under a key of its own. -/
def Factory.supplier (n : UInt64) : Factory Unit Unit := fun _ _ => .answer (.ok (some (.nth n [])))

/-- A parent that declares a scope, and its child, which falls back on three factories. -/
def World.workshop : World Unit Unit :=
  { World.initial () with
    components := [⟨[DefaultScope.app.tag], [], [], .default, true⟩,
      ⟨[], [0], [], ⟨none, [.supplier 5, .supplier 4, .scout]⟩, true⟩] }

/-- The scout leaves a binding in the parent only. -/
theorem Factory.scout_spares (c : ComponentId) (key : Key) : Factory.scout.Spares c key := by
  intro resolution w w' reply hreplies
  obtain ⟨_, between, hconsult, hrest⟩ := Task.run_bind_eq_ok (hreplies fun _ _ => .error .tooDeep)
  obtain ⟨-, rfl⟩ := Prod.mk.inj (Except.ok.inj hrest)
  exact (Resolution.consult_gives hconsult).bindings_eq

/-- The supplier changes nothing at all. -/
theorem Factory.supplier_spares (n : UInt64) (c : ComponentId) (key : Key) : (Factory.supplier n).Spares c key := by
  intro resolution w w' reply hreplies
  obtain ⟨-, rfl⟩ := Prod.mk.inj (Except.ok.inj (hreplies fun _ _ => .error .tooDeep))
  rfl

/-- The factory that was added last is asked first; it leaves a binding in the parent and declines. The next has a
binding under another key, which the child stores under the one asked for, and the first one is not asked. The
child's second request, for the required key, asks nobody and is served by what is stored. -/
theorem World.Course.synthesized_once_workshop :
    ∃ (asked : List (Factory Unit Unit)) (u w w' : World Unit Unit) (reply reply' : Reply Unit) (binding : Binding Unit Unit),
      World.workshop.run 3 ((Query.getOptional (.nth 0)).task 1) = .ok (reply, w) ∧
      w.run 3 ((Query.get (.nth 0) []).task 1) = .ok (reply', w') ∧
      World.workshop.entered.Improvises 1 [] ⟨0, none⟩ (Key.of (.nth 0)).optional [] asked (.ok (some binding)) u ∧
      asked = [.scout, .supplier 4] ∧ (u.bindings 0).length = 1 ∧ binding.key = .of (.nth 4) ∧
      (∀ others, (Call.resolve 1 [] ⟨1, none⟩ (.of (.nth 0)) []).Asks w.entered others ↔ others = []) ∧
      w.entered.Serves 1 [] ⟨1, none⟩ (.of (.nth 0)) [] (binding.withKey (.of (.nth 0))) ∧
      w'.binding? 1 (Key.of (.nth 0)).identity = some (binding.withKey (.of (.nth 0))) := by
  obtain ⟨w, w', reply, reply', hfirst, hsecond, hcall⟩ : ∃ (w w' : World Unit Unit) (reply reply' : Reply Unit),
      World.workshop.run 3 ((Query.getOptional (.nth 0)).task 1) = .ok (reply, w) ∧
        w.run 3 ((Query.get (.nth 0) []).task 1) = .ok (reply', w') ∧
          (Query.get (.nth 0) []).call 1 w = .resolve 1 [] ⟨1, none⟩ (.of (.nth 0)) [] :=
    ⟨_, _, _, _, rfl, rfl, rfl⟩
  -- The first request is the first call of the journal, and the second one comes after it.
  obtain ⟨after, hlater, hcourse⟩ : ∃ after,
      .called (.resolve 1 [] ⟨1, none⟩ (.of (.nth 0)) []) w.entered ∈ after ∧ World.workshop.Course
        ([] ++ .called (.resolve 1 [] ⟨0, none⟩ (Key.of (.nth 0)).optional []) World.workshop.entered :: after)
          (some w') := by
    have hcourse := (World.Course.nothing.answered hfirst).answered hsecond
    rw [Query.journal_task, Query.journal_task, hcall] at hcourse
    exact ⟨_, List.mem_append_right _ List.mem_cons_self, hcourse⟩
  have hspares : ∀ factory ∈ (World.workshop.entered.config 1).factories,
      factory.Spares 1 (Key.of (.nth 0)).optional.required := by
    intro factory hfactory
    rcases List.mem_cons.mp hfactory with rfl | hfactory
    · exact Factory.supplier_spares 5 1 _
    · rcases List.mem_cons.mp hfactory with rfl | hfactory
      · exact Factory.supplier_spares 4 1 _
      · exact List.mem_singleton.mp hfactory ▸ Factory.scout_spares 1 _
  obtain ⟨asked, reply₀, u, himprovises, hstored⟩ := World.Course.synthesized_once hcourse (by simp) rfl hspares
  obtain ⟨between, hinquiry, hparent⟩ : ∃ between,
      Inquiry ⟨0, none⟩ (.of (.nth 0)) 1 [.scout, .supplier 4, .supplier 5] World.workshop.entered
        [.scout, .supplier 4] (.ok (some (.nth 4 []))) between ∧ (between.bindings 0).length = 1 :=
    ⟨_, .declined (fun _ => rfl) (.settled (fun _ => rfl) (by simp)), rfl⟩
  obtain ⟨rfl, rfl, rfl⟩ := himprovises.inquiry.unique hinquiry
  obtain ⟨hafter, hlast⟩ := hstored _ rfl
  obtain ⟨hkept, hnobody, hserves⟩ := hafter _ _ hlater
  have hserved := hserves [] ⟨1, none⟩ (.of (.nth 0)) [] rfl rfl (by simp)
  rw [show (Key.of (.nth 0)).identity = (Key.of (.nth 0)).optional.required.identity from rfl, hkept] at hserved
  exact ⟨_, u, w, w', reply, reply', .nth 4 [], hfirst, hsecond, himprovises, rfl, hparent, rfl,
    hnobody ⟨[], ⟨1, none⟩, .of (.nth 0), [], rfl, rfl⟩, hserved, hlast w' rfl⟩

end Injection

import Injection.Proofs.Aftermath
import Injection.Proofs.Confinement
import Injection.Proofs.Propagation
import Injection.Proofs.Sharing

/-!
# One object everywhere

Components that share the values of an entry may be built and dropped while requests are made at them, and
constructing the value may fail any number of times. Still the value is constructed at most once, and whoever
asks for it at any of the components is given that object, as a dependency of something else or not. As long as
it has not been constructed, whoever asks for it runs the entry's definition and comes to what that comes to.
-/

namespace Injection

variable {V E : Type}

section Definitions

variable (members : ComponentId → Prop) (catalog : Catalog V E) (entry : CatalogEntry V E)

/-- What a component is built from, to be one of the components: parents among them, nothing to fall back on but
the catalog, and bindings that stay among them and are not for the entry. -/
structure ComponentBuilder.Joins (b : ComponentBuilder V E) : Prop where
  parents : ∀ parent ∈ b.parents, members parent
  factories : b.config.factories = [catalog.factory]
  modules : ∀ source ∈ b.modules, ∀ binding ∈ source.bindings,
    binding.Within members entry ∧ binding.key.site ≠ entry.site
  bindings : ∀ binding ∈ b.bindings, binding.Within members entry ∧ binding.key.site ≠ entry.site

/-- The world after what a journal tells and what has been made meanwhile, from an empty one on. Components are built
and dropped, among them those that share the values of the entry; top-level requests are made at those; and anything
may happen outside of the container. -/
inductive World.Shares [Hashed V] : World V E → List (Moment V E) → List (Creation V E) → Prop
  | initial (surroundings : E) : Shares (World.initial surroundings) [] []
  | built {w w' : World V E} {journal : List (Moment V E)} {creations : List (Creation V E)}
      {b : ComponentBuilder V E} {c : ComponentId} : w.Shares journal creations →
        (members c → b.Joins members catalog entry) → w.build b = .ok (c, w') → w'.Shares journal creations
  | dropped {w : World V E} {journal : List (Moment V E)} {creations : List (Creation V E)} (c : ComponentId) :
      w.Shares journal creations → (w.drop c).Shares journal creations
  | requested {w w' : World V E} {journal : List (Moment V E)} {creations : List (Creation V E)} {q : Query V}
      {c : ComponentId} {depth : Nat} {reply : Reply V} : w.Shares journal creations → members c →
        w.run depth (q.task c) = .ok (reply, w') →
          w'.Shares (journal ++ w.journal depth (q.task c)) (creations ++ w.creations depth q c)
  | moved {w w' : World V E} {journal : List (Moment V E)} {creations : List (Creation V E)} :
      w.Shares journal creations → w'.components = w.components → w'.cells = w.cells → w'.Shares journal creations

end Definitions

/-- The creation runs the definition of an entry in its context. -/
def CatalogEntry.Constructs (entry : CatalogEntry V E) (creation : Creation V E) : Prop :=
  ∃ key, creation.program = entry.definition key creation.context

/-- A call for a site yields an object. -/
def Call.Gives [Hashed V] (request : Call V) (w : World V E) (site : Site) (object : Object V) : Prop :=
  request.site = site ∧ ∃ depth w', Call.answer depth request w = .ok (.ok (some object), w')

/-- Between top-level requests the components share, no value is being made, cells have changed as a journal tells,
and this tells of what has been made. All calls were made among the components, what was made to be the shared value
was made by the entry, and what calls have given for the entry is the shared value. -/
structure World.Settled [Hashed V] (members : ComponentId → Prop) (catalog : Catalog V E) (entry : CatalogEntry V E)
    (w : World V E) (journal : List (Moment V E)) (creations : List (Creation V E)) : Prop where
  joined : w.Joined members catalog entry
  idle : ∀ slot creator, w.cells slot ≠ .creating creator
  turns : ∀ slot, Cell.Turns slot .empty journal (w.cells slot)
  tells : Moment.Tells False journal creations
  among : ∀ {request v}, .called request v ∈ journal → v.Joined members catalog entry ∧ request.Among members
  constructs : ∀ {creation}, creation ∈ creations → creation.slot = .shared entry.number → entry.Constructs creation
  given : ∀ {request v object}, .called request v ∈ journal → request.Gives v entry.site object →
    w.cells (.shared entry.number) = .ready object

/-- What a program shares as the value of an entry, the entry makes, if the program stays among the components. -/
theorem Program.Within.constructs {members : ComponentId → Prop} {entry : CatalogEntry V E} {context : Context V}
    {creation : Creation V E} {program : Program V E} (h : program.Within members entry context)
    (hshares : program.Shares creation context) (hslot : creation.slot = .shared entry.number) :
    entry.Constructs creation := by
  induction program with
  | done outcome => exact hshares.elim
  | request key parameters next ih =>
    obtain ⟨reply, hreply⟩ := hshares
    exact ih reply (h reply) hreply
  | start c key parameters next ih | forward owner key next ih =>
    obtain ⟨reply, hreply⟩ := hshares
    exact ih reply (h.2 reply) hreply
  | share other body next ihbody ih =>
    obtain ⟨w, rfl⟩ | hbody | ⟨reply, hreply⟩ := hshares
    · exact h.1 (Slot.shared.inj hslot)
    · exact ihbody h.2.1 hbody
    · exact ih reply (h.2.2 reply) hreply
  | make type value next ih =>
    obtain ⟨object, hobject⟩ := hshares
    exact ih object (h object) hobject
  | touch change next ih =>
    obtain ⟨before, hbefore⟩ := hshares
    exact ih before (h before) hbefore
  | report event next ih => exact ih h hshares
  | meet gate next ih => exact ih h hshares

section Histories

variable [Hashed V] {members : ComponentId → Prop} {catalog : Catalog V E} {entry : CatalogEntry V E}
  {w w' : World V E} {journal : List (Moment V E)} {creations : List (Creation V E)} {c : ComponentId} {q : Query V}

namespace World

omit [Hashed V] in
/-- A component that is built from what joins the components joins them. -/
theorem Joined.build (h : w.Joined members catalog entry) {b : ComponentBuilder V E}
    (hb : members c → b.Joins members catalog entry) (hbuild : w.build b = .ok (c, w')) :
    w'.Joined members catalog entry := by
  obtain ⟨m, hregistry, hadded⟩ := build_eq_ok hbuild
  have hplace : c = w.components.length := by
    unfold World.build at hbuild
    rw [hregistry] at hbuild
    exact (Prod.mk.inj (Except.ok.inj hbuild)).1.symm
  subst hadded
  refine h.of_cells (fun d component hd hcomponent => ?_) rfl
  change (w.addComponent (b.component m)).2.component? d = some component at hcomponent
  rw [component?_addComponent] at hcomponent
  split at hcomponent
  · next hnew =>
    obtain rfl := Option.some.inj hcomponent
    have hjoins := hb (hplace ▸ hnew ▸ hd)
    have hbindings := ComponentBuilder.forall_registry hjoins.modules hjoins.bindings hregistry
    refine ⟨fun parent hparent => hjoins.parents parent (List.mem_reverse.mp hparent), hjoins.factories, ?_⟩
    exact fun binding hbinding =>
      ⟨(hbindings binding hbinding).1, fun hsite => absurd hsite (hbindings binding hbinding).2⟩
  · exact h.components d component hd hcomponent

omit [Hashed V] in
/-- A component that is dropped goes on sharing. -/
theorem Joined.drop (h : w.Joined members catalog entry) (c : ComponentId) :
    (w.drop c).Joined members catalog entry := by
  refine h.of_cells (fun d component hd hcomponent => ?_) rfl
  change (w.drop c).component? d = some component at hcomponent
  unfold World.drop at hcomponent
  rw [component?_modifyComponent, Option.map_eq_some_iff] at hcomponent
  obtain ⟨before, hbefore, rfl⟩ := hcomponent
  have hjoins := h.components d before hd hbefore
  split
  · exact ⟨hjoins.parents, hjoins.factories, hjoins.bindings⟩
  · exact hjoins

end World

section Requests

variable (hoffers : catalog.Offers members entry)
include hoffers

/-- A top-level request leaves the components sharing, and keeps what is kept. -/
theorem Query.task_joined {depth : Nat} {reply : Reply V} (h : w.Joined members catalog entry) (hc : members c)
    (hrun : w.run depth (q.task c) = .ok (reply, w')) : w'.Joined members catalog entry := by
  have hcall := Contract.sharing_kept hoffers depth (q.call c w) w.entered ⟨h.alike w.alike_entered, hc⟩
  obtain ⟨_, hanswer, -⟩ := Query.answer_of_run hrun
  exact (hcall.of_ok hanswer).1

/-- All calls that are taken up while a top-level request is answered are made among the components. -/
theorem World.Joined.among (h : w.Joined members catalog entry) (hc : members c) {depth : Nat} {request : Call V}
    {v : World V E} (hcalled : .called request v ∈ w.journal depth (q.task c)) :
    v.Joined members catalog entry ∧ request.Among members := by
  have hentered : w.entered.Joined members catalog entry := h.alike w.alike_entered
  have hamong : (q.call c w).Among members := hc
  rw [q.journal_task] at hcalled
  exact Call.among_of_called hoffers hentered hamong hcalled

/-- Whatever call for the entry yields an object while a top-level request is answered, the object is the shared
value when the request has been answered. -/
theorem World.Joined.given (h : w.Joined members catalog entry) (hc : members c)
    (hidle : ∀ slot creator, w.cells slot ≠ .creating creator) {depth : Nat} {reply : Reply V}
    (hrun : w.run depth (q.task c) = .ok (reply, w')) {request : Call V} {v : World V E} {object : Object V}
    (hcalled : .called request v ∈ w.journal depth (q.task c)) (hgives : request.Gives v entry.site object) :
    w'.cells (.shared entry.number) = .ready object := by
  obtain ⟨hsite, depth', v', hgiven⟩ := hgives
  have hamong := h.among hoffers hc hcalled
  obtain ⟨depth'', _, reply', v'', -, -, -, hreply, hlasts⟩ := Query.lasts_of_called hidle hrun hcalled
  obtain ⟨rfl, rfl⟩ := Prod.mk.inj (Call.answer_unique hreply hgiven)
  have hkept := Contract.sharing_kept hoffers depth' request v hamong
  exact hlasts _ _ ((hkept.of_ok hgiven).2.2 object rfl hsite)

/-- What is made meanwhile to be the shared value is made by the entry. -/
theorem World.Joined.constructs (h : w.Joined members catalog entry) (hc : members c) {depth : Nat}
    {creation : Creation V E} (hmem : creation ∈ w.creations depth q c)
    (hslot : creation.slot = .shared entry.number) : entry.Constructs creation := by
  obtain ⟨request, v, visit, hcalled, hvisit, hbegins⟩ := Query.exists_visit_of_creation hmem
  obtain ⟨hjoined, hamong⟩ := h.among hoffers hc hcalled
  have hwithin := (Call.visit_joins hoffers hjoined hamong hvisit).within visit.context
  cases hbegins with
  | kept hkept => exact absurd (hkept.trans (congrArg some hslot)) visit.stored.slot?_ne_shared
  | shared hshares => exact hwithin.constructs hshares hslot

/-- After any history the components share, and whatever has been given for the entry is the shared value. -/
theorem World.Shares.settled (h : w.Shares members catalog entry journal creations) :
    w.Settled members catalog entry journal creations := by
  induction h with
  | initial surroundings =>
    refine ⟨⟨fun c component _ hcomponent => ?_, nofun⟩, nofun, fun slot => .nil _, .nothing, nofun, nofun, nofun⟩
    simp [World.initial] at hcomponent
  | built _ hb hbuild ih =>
    have hbuilt := ih.joined.build hb hbuild
    obtain ⟨m, -, rfl⟩ := build_eq_ok hbuild
    exact ⟨hbuilt, ih.idle, ih.turns, ih.tells, ih.among, ih.constructs, ih.given⟩
  | dropped c _ ih => exact ⟨ih.joined.drop c, ih.idle, ih.turns, ih.tells, ih.among, ih.constructs, ih.given⟩
  | @requested w w' journal creations q c depth reply _ hc hrun ih =>
    obtain ⟨hidle, hrequest⟩ := Query.settles ih.idle hrun
    refine ⟨Query.task_joined hoffers ih.joined hc hrun, hidle, fun slot => (ih.turns slot).append (hrequest slot),
      ih.tells.append (Query.tells_of_run hrun), fun {request v} hcalled => ?_, fun {creation} hmem hslot => ?_,
      fun {request v object} hcalled hgives => ?_⟩
    · rcases List.mem_append.mp hcalled with hbefore | hnow
      · exact ih.among hbefore
      · exact ih.joined.among hoffers hc hnow
    · rcases List.mem_append.mp hmem with hbefore | hnow
      · exact ih.constructs hbefore hslot
      · exact ih.joined.constructs hoffers hc hnow hslot
    · rcases List.mem_append.mp hcalled with hbefore | hnow
      · have hkept := hrequest (.shared entry.number)
        rw [ih.given hbefore hgives] at hkept
        exact hkept.of_ready.1
      · exact ih.joined.given hoffers hc ih.idle hrun hnow hgives
  | moved _ hcomponents hcells ih =>
    exact ⟨ih.joined.of_cells (hcomponents ▸ ih.joined.components) hcells, hcells ▸ ih.idle, hcells ▸ ih.turns,
      ih.tells, ih.among, ih.constructs, hcells ▸ ih.given⟩

end Requests

/-! ### What a request comes to -/

section Entry

variable {stored : Stored V E}

omit [Hashed V] in
/-- What falls back on the catalog only synthesizes a binding for the entry. -/
theorem Resolution.synthesize_entry (hoffers : catalog.Offers members entry)
    (hfactories : (w.config c).factories = [catalog.factory]) {key : Key} (hsite : key.site = entry.site)
    (resolution : Resolution) (answer : Call V → World V E → Run V E (Reply V)) :
    ∃ stored w', (synthesize resolution key c).run answer w = .ok (.ok (some stored), w') := by
  have hfind : catalog.find? key.required.type.id = some entry :=
    (congrArg catalog.find? (congrArg Site.type hsite)).trans hoffers.listed
  have hqualifier : entry.descriptor.qualifier.map Qualifier.identity = key.required.site.qualifier :=
    (congrArg Site.qualifier hsite).symm
  let binding : Binding V E := .new key.required .single (entry.sharedDefinition key.required)
  let consulted := w.emit resolution.logger .singletonSynthesized
  have hconsult : (consult resolution catalog key.required c).run answer w = .ok (.ok (some binding), consulted) := by
    simp [consult, hfind, hqualifier, hoffers.isShared, binding, consulted]
  obtain ⟨w', hmemoize, -⟩ := memoize_run answer resolution c (binding.withKey key.required)
    (consulted.emit resolution.logger .synthesized)
  have hsynthesis : (synthesis resolution (catalog.factory key.required c)).run answer w =
      .ok (.ok (some binding), consulted) := (Task.run_bind_of_ok hconsult).trans rfl
  rw [synthesize, Task.run_read, hfactories]
  exact ⟨_, w', (Task.run_bind_of_ok hsynthesis).trans ((Task.run_bind_of_ok hmemoize).trans rfl)⟩

/-- A key of the entry is located, at whichever of the components it is requested. -/
theorem Resolution.locate_entry (hoffers : catalog.Offers members entry) (h : w.Joined members catalog entry)
    (hc : members c) {component : Component V E} (hcomponent : w.component? c = some component) {key : Key}
    (hsite : key.site = entry.site) (resolution : Resolution) :
    ∃ stored found, (∀ answer, (locate resolution key c).run answer w = .ok (.ok (some stored), found)) ∧
      found.Joined members catalog entry ∧ found.cells = w.cells ∧ members stored.owner ∧
        stored.binding.Joins members entry ∧ stored.binding.key.site = entry.site := by
  obtain ⟨located, found, hlocate⟩ := (locate_acts (V := V) (E := E) resolution key c).exists_run w
  have hlocated := (locate_joined hoffers hc h resolution key (Call.answer 0) fun _ => True).of_ok (hlocate _)
  obtain ⟨stored, w', hrun⟩ : ∃ stored w', (locate resolution key c).run (Call.answer 0) w =
      .ok (.ok (some stored), w') := by
    obtain ⟨between, hsearch, hcomponents⟩ := search_run (Call.answer 0) resolution c key w
    cases hfound : w.found? key c with
    | some stored =>
      rw [hfound] at hsearch
      exact ⟨stored, between, (Task.run_bind_of_ok hsearch).trans rfl⟩
    | none =>
      rw [hfound] at hsearch
      have hfactories : (between.config c).factories = [catalog.factory] := by
        rw [(World.Grows.of_components hcomponents).config, World.config, hcomponent]
        exact (h.components c component hc hcomponent).factories
      obtain ⟨stored, w', hsynthesize⟩ := synthesize_entry hoffers hfactories hsite resolution (Call.answer 0)
      exact ⟨stored, w', (Task.run_bind_of_ok hsearch).trans hsynthesize⟩
  obtain ⟨rfl, rfl⟩ := Prod.mk.inj (Except.ok.inj ((hlocate _).symm.trans hrun))
  obtain ⟨howner, hjoins, hstored⟩ := hlocated.2.2 stored rfl
  exact ⟨stored, found, hlocate, hlocated.1, hlocated.2.1, howner, hjoins, hstored.trans hsite⟩

/-- What is stored for the entry is kept in the entry's cell of the component. -/
theorem Stored.obtain_entry (hjoins : stored.binding.Joins members entry)
    (hsite : stored.binding.key.site = entry.site) (context : Context V) :
    stored.obtain context = Task.keep (entry.slot stored.owner) context (stored.create context) := by
  obtain ⟨hrequired, hkind, -⟩ := hjoins.shares hsite
  have hidentity : stored.binding.key.identity = entry.keyId := by
    simp [Key.identity, CatalogEntry.keyId, hsite, hrequired]
  unfold obtain
  simp only [hkind, hidentity, CatalogEntry.slot]

/-- Once the value is there, every component yields it. -/
theorem Stored.obtain_shared (h : w.Joined members catalog entry) (howner : members stored.owner)
    (hjoins : stored.binding.Joins members entry) (hsite : stored.binding.key.site = entry.site)
    (hidle : ∀ slot creator, w.cells slot ≠ .creating creator) {object : Object V}
    (hready : w.cells (.shared entry.number) = .ready object) (context : Context V)
    (answer : Call V → World V E → Run V E (Reply V)) :
    ∃ w', (stored.obtain context).run answer w = .ok (.ok object, w') := by
  rw [obtain_entry hjoins hsite]
  cases hcell : w.cells (entry.slot stored.owner) with
  | ready other =>
    obtain rfl := Cell.ready.inj ((h.kept howner hcell).symm.trans hready)
    exact Task.keep_ready hcell
  | creating creator => exact absurd hcell (hidle _ _)
  | empty =>
    obtain ⟨-, -, key, hdefinition⟩ := hjoins.shares hsite
    have hopened : (w.opened (entry.slot stored.owner) context).cells (.shared entry.number) = .ready object :=
      (World.opened_cells_ne Slot.noConfusion w context).trans hready
    obtain ⟨made, hmade⟩ : ∃ made, ((stored.binding.definition context).toTask context).run answer
        (w.opened (entry.slot stored.owner) context) = .ok (.ok object, made) := by
      rw [hdefinition]
      exact entry.sharedDefinition_ready key hopened
    exact Task.keep_run hcell (create_run hmade)

omit [Hashed V] in
/-- As long as the value is not there, it is not kept in a component either. -/
theorem World.Joined.slot_empty (h : w.Joined members catalog entry) (hc : members c)
    (hempty : w.cells (.shared entry.number) = .empty) (hidle : ∀ slot creator, w.cells slot ≠ .creating creator) :
    w.cells (entry.slot c) = .empty := by
  cases hcell : w.cells (entry.slot c) with
  | ready other => simp [h.kept hc hcell] at hempty
  | creating creator => exact absurd hcell (hidle _ _)
  | empty => rfl

/-- As long as the value is not there, whichever component is asked runs a definition that shares it. -/
theorem Stored.visit?_unshared (h : w.Joined members catalog entry) (howner : members stored.owner)
    (hjoins : stored.binding.Joins members entry) (hsite : stored.binding.key.site = entry.site)
    (hempty : w.cells (.shared entry.number) = .empty)
    (hidle : ∀ slot creator, w.cells slot ≠ .creating creator) (context : Context V) :
    stored.visit? context w = some ⟨stored, context, w.opened (entry.slot stored.owner) context⟩ := by
  obtain ⟨hrequired, hkind, -⟩ := hjoins.shares hsite
  have hidentity : stored.binding.key.identity = entry.keyId := by
    simp [Key.identity, CatalogEntry.keyId, hsite, hrequired]
  have hcell : w.cells (.single stored.owner entry.keyId) = .empty := h.slot_empty howner hempty hidle
  unfold visit? opening?
  simp only [hkind, hidentity, hcell]
  rfl

/-- A top-level query for the entry has its key located, at whichever of the components it is made. -/
theorem Query.locate_entry (hoffers : catalog.Offers members entry) (h : w.Joined members catalog entry)
    (hc : members c) {component : Component V E} (hcomponent : w.component? c = some component)
    (hsite : q.key.site = entry.site) :
    ∃ stored found, (∀ answer, (Resolution.locate ⟨w.nextResolution, (w.config c).logger <|> none⟩ q.key c).run answer
        (w.entered.emit ((w.config c).logger <|> none) (.lookup q.key)) = .ok (.ok (some stored), found)) ∧
      found.Joined members catalog entry ∧ found.cells = w.cells ∧ members stored.owner ∧
        stored.binding.Joins members entry ∧ stored.binding.key.site = entry.site := by
  have halike := w.alike_entered.trans (w.entered.alike_emit ((w.config c).logger <|> none) (.lookup q.key))
  have hasked := (congrArg (·[c]?) halike.components).trans hcomponent
  obtain ⟨stored, found, hlocate, hjoined, hcells, hstored⟩ :=
    Resolution.locate_entry hoffers (h.alike halike) hc hasked hsite ⟨w.nextResolution, (w.config c).logger <|> none⟩
  exact ⟨stored, found, hlocate, hjoined, hcells.trans halike.cells, hstored⟩

/-- A top-level query accepts what is obtained of what its key is located at. -/
theorem Query.run_of_located {found made : World V E} {result : Except ResolveError (Object V)} {depth : Nat}
    (hlocate : (Resolution.locate ⟨w.nextResolution, (w.config c).logger <|> none⟩ q.key c).run (Call.answer depth)
      (w.entered.emit ((w.config c).logger <|> none) (.lookup q.key)) = .ok (.ok (some stored), found))
    (hobtain : (stored.obtain (q.context c w stored)).run (Call.answer depth) found = .ok (result, made)) :
    ∃ w', w.run (depth + 1) (q.task c) = .ok (q.accept (result.map some), w') := by
  suffices hresolve : ∃ w', (Resolution.resolve c [] ⟨w.nextResolution, (w.config c).logger <|> none⟩ q.key
      q.parameters).run (Call.answer depth) w.entered = .ok (result.map some, w') by
    obtain ⟨w', hresolve⟩ := hresolve
    exact ⟨w', (q.run_task c depth w).trans (congrArg _ hresolve)⟩
  rw [Resolution.resolve, Task.run_emit, if_neg (by simp)]
  cases result with
  | ok object => exact ⟨made, (Task.run_bind_of_ok hlocate).trans (Task.run_bind_of_ok hobtain)⟩
  | error e => exact ⟨_, (Task.run_bind_of_ok hlocate).trans (Task.run_bind_of_ok hobtain)⟩

namespace World.Settled

/-- The shared value is what was constructed last. -/
theorem ready_iff (h : w.Settled members catalog entry journal creations) (object : Object V) :
    w.cells (.shared entry.number) = .ready object ↔ .ended (.shared entry.number) (.ready object) ∈ journal :=
  (h.turns (.shared entry.number)).ready_iff (by simp)

/-- Once the value has been constructed, a request for it comes to it. -/
theorem request_shared (hoffers : catalog.Offers members entry) (h : w.Settled members catalog entry journal creations)
    (hc : members c) {component : Component V E} (hcomponent : w.component? c = some component)
    (hsite : q.key.site = entry.site) {object : Object V}
    (hmade : .ended (.shared entry.number) (.ready object) ∈ journal) (depth : Nat) :
    ∃ w', w.run (depth + 1) (q.task c) = .ok (q.accept (.ok (some object)), w') := by
  obtain ⟨stored, found, hlocate, hjoined, hcells, howner, hjoins, hstored⟩ :=
    q.locate_entry hoffers h.joined hc hcomponent hsite
  have hkept : found.cells (.shared entry.number) = .ready object := hcells ▸ (h.ready_iff object).mpr hmade
  obtain ⟨made, hobtain⟩ := Stored.obtain_shared hjoined howner hjoins hstored (hcells ▸ h.idle) hkept
    (q.context c w stored) (Call.answer depth)
  exact Query.run_of_located (hlocate _) hobtain

/-- As long as the value has not been constructed, a request for it runs the entry's definition and comes to what that
comes to. -/
theorem request_unshared (hoffers : catalog.Offers members entry)
    (h : w.Settled members catalog entry journal creations) (hc : members c) {component : Component V E}
    (hcomponent : w.component? c = some component) (hsite : q.key.site = entry.site)
    (hunmade : ∀ object, .ended (.shared entry.number) (.ready object) ∉ journal) :
    ∃ (stored : Stored V E) (key : Key) (v u : World V E), members stored.owner ∧
      stored.binding.definition = entry.sharedDefinition key ∧ ∀ depth,
        w.Visits (depth + 1) (q.task c) ⟨stored, q.context c w stored, v⟩ ∧
          ⟨.shared entry.number, q.context c w stored, entry.definition key (q.context c w stored), u⟩ ∈
            w.creations (depth + 1) q c ∧
          ∀ outcome made,
            u.run depth ((entry.definition key (q.context c w stored)).toTask (q.context c w stored)) =
                .ok (outcome, made) →
              ∃ w', w.run (depth + 1) (q.task c) =
                .ok (q.accept ((outcome.mapError fun cause => .dependency cause.toResolveError).map some), w') := by
  obtain ⟨stored, found, hlocate, hjoined, hcells, howner, hjoins, hstored⟩ :=
    q.locate_entry hoffers h.joined hc hcomponent hsite
  have hempty : found.cells (.shared entry.number) = .empty := by
    rw [hcells]
    cases hcell : w.cells (.shared entry.number) with
    | empty => rfl
    | creating creator => exact absurd hcell (h.idle _ _)
    | ready object => exact absurd ((h.ready_iff object).mp hcell) (hunmade object)
  obtain ⟨-, -, key, hdefinition⟩ := hjoins.shares hstored
  let opened := found.opened (entry.slot stored.owner) (q.context c w stored)
  have hvisit : (q.call c w).visit? w.entered = some ⟨stored, q.context c w stored, opened⟩ := by
    have hlocated := hlocate (Call.answer 0)
    simp only [Query.call, Call.visit?, List.any_nil, World.run, hlocated]
    exact Stored.visit?_unshared hjoined howner hjoins hstored hempty (hcells ▸ h.idle) _
  have hopened : opened.cells (.shared entry.number) = .empty :=
    (World.opened_cells_ne Slot.noConfusion found _).trans hempty
  refine ⟨stored, key, opened, opened.opened (.shared entry.number) (q.context c w stored), howner, hdefinition,
    fun depth => ⟨⟨_, _, journal_of_visit hvisit depth ▸ List.mem_cons_self, hvisit⟩, ?_, fun outcome made hrun => ?_⟩⟩
  · rw [creations_of_visit hvisit]
    exact Visit.share_mem (congrFun hdefinition _) hopened
  · obtain ⟨w', hshared⟩ := entry.sharedDefinition_run key hopened hrun
    rw [← hdefinition] at hshared
    obtain ⟨w'', hrequest⟩ := run_of_visit hvisit hshared
    refine ⟨w'', hrequest.trans ?_⟩
    cases outcome <;> rfl

end World.Settled

end Entry

end Histories

section Main

variable [Hashed V] (members : ComponentId → Prop) (entry : CatalogEntry V E) (w : World V E)
  (journal : List (Moment V E)) (creations : List (Creation V E))

/-- What requests and what has been made while they were answered say of the value that components share, and what
the next request for it comes to. -/
structure World.OneObject : Prop where
  /-- Whatever is made to be the shared value, the definition of the entry makes. -/
  constructs : ∀ creation ∈ creations, creation.slot = .shared entry.number → entry.Constructs creation
  /-- It comes to an object or to an error. -/
  concluded : ∀ creation ∈ creations, creation.slot = .shared entry.number → ∃ outcome, creation.ComesTo outcome
  /-- An object is noted down as constructed exactly if the definition has come to it. -/
  constructed : ∀ object, .ended (.shared entry.number) (.ready object) ∈ journal ↔
    ∃ creation ∈ creations, creation.slot = .shared entry.number ∧ creation.ComesTo (.ok object)
  /-- After the value has been constructed nobody begins to construct it again, so that succeeds at most once. -/
  once : creations.Pairwise fun creation later =>
    creation.slot = .shared entry.number → creation.Succeeds → later.slot ≠ .shared entry.number
  /-- Nothing else happens to the value then. -/
  quiet : ∀ object before after, journal = before ++ .ended (.shared entry.number) (.ready object) :: after →
    ∀ moment ∈ after, ¬ moment.Concerns (.shared entry.number)
  /-- Nor in any later request, wherever it is made. -/
  never_again : ∀ object, .ended (.shared entry.number) (.ready object) ∈ journal →
    ∀ (q : Query V) (c : ComponentId) (depth : Nat),
      (∀ later ∈ w.creations depth q c, later.slot ≠ .shared entry.number) ∧
        ∀ moment ∈ w.journal depth (q.task c), ¬ moment.Concerns (.shared entry.number)
  /-- Among the components nothing is run for the entry but what shares that value. -/
  only_shared : ∀ request v visit, .called request v ∈ journal → request.visit? v = some visit →
    visit.stored.binding.key.site = entry.site → ∃ key, visit.stored.binding.definition = entry.sharedDefinition key
  /-- Every call for the entry, be it a request of its own or a dependency, yields what was constructed. -/
  given : ∀ request v object, .called request v ∈ journal → request.Gives v entry.site object →
    .ended (.shared entry.number) (.ready object) ∈ journal
  /-- So all of them yield the same object. -/
  same : ∀ request request' v v' object object', .called request v ∈ journal → .called request' v' ∈ journal →
    request.Gives v entry.site object → request'.Gives v' entry.site object' → object = object'
  /-- If the next request for it comes to an object, that is what was constructed by then. -/
  next : ∀ (q : Query V) (c : ComponentId) depth object w', members c → q.key.site = entry.site →
    w.run depth (q.task c) = .ok (.ok (some object), w') →
      .ended (.shared entry.number) (.ready object) ∈ journal ++ w.journal depth (q.task c)
  /-- Once the value has been constructed, a request for it comes to it at each of the components. -/
  shared : ∀ (q : Query V) (c : ComponentId) component object, members c → w.component? c = some component →
    q.key.site = entry.site → .ended (.shared entry.number) (.ready object) ∈ journal →
      ∀ depth, ∃ w', w.run (depth + 1) (q.task c) = .ok (q.accept (.ok (some object)), w')
  /-- As long as it has not, whatever has failed before, a request for it makes it at each of the components: it runs
  the definition of the entry for the cell, in the world that there is then, and comes to what that comes to. -/
  again : ∀ (q : Query V) (c : ComponentId) component, members c → w.component? c = some component →
    q.key.site = entry.site → (∀ object, .ended (.shared entry.number) (.ready object) ∉ journal) →
      ∃ (stored : Stored V E) (key : Key) (v u : World V E), members stored.owner ∧
        stored.binding.definition = entry.sharedDefinition key ∧ ∀ depth,
          w.Visits (depth + 1) (q.task c) ⟨stored, q.context c w stored, v⟩ ∧
            ⟨.shared entry.number, q.context c w stored, entry.definition key (q.context c w stored), u⟩ ∈
              w.creations (depth + 1) q c ∧
            ∀ outcome made,
              u.run depth ((entry.definition key (q.context c w stored)).toTask (q.context c w stored)) =
                  .ok (outcome, made) →
                ∃ w', w.run (depth + 1) (q.task c) =
                  .ok (q.accept ((outcome.mapError fun cause => .dependency cause.toResolveError).map some), w')

variable {members entry w journal creations} {catalog : Catalog V E}

/-- What a top-level request comes to for the entry has been constructed by then. -/
theorem World.Shares.constructed_of_run (hoffers : catalog.Offers members entry)
    (h : w.Shares members catalog entry journal creations) {q : Query V} {c : ComponentId} {depth : Nat}
    {object : Object V} {w' : World V E} (hc : members c) (hsite : q.key.site = entry.site)
    (hrun : w.run depth (q.task c) = .ok (.ok (some object), w')) :
    .ended (.shared entry.number) (.ready object) ∈ journal ++ w.journal depth (q.task c) := by
  have hsettled := (h.requested hc hrun).settled hoffers
  refine (hsettled.ready_iff object).mp ?_
  obtain ⟨given, hanswer, haccept⟩ := Query.answer_of_run hrun
  have hgives : (q.call c w).Gives w.entered entry.site object :=
    ⟨hsite, depth, w', Query.eq_of_accept haccept ▸ hanswer⟩
  refine hsettled.given (List.mem_append_right _ ?_) hgives
  rw [q.journal_task]
  cases depth with
  | zero => cases hanswer
  | succ depth => exact List.mem_cons_self

/-- Whatever is requested among components that share the values of an entry, they share one object. -/
theorem World.Shares.one_object (hoffers : catalog.Offers members entry)
    (h : w.Shares members catalog entry journal creations) : w.OneObject members entry journal creations := by
  have hsettled := h.settled hoffers
  exact {
    constructs := fun _ => hsettled.constructs
    concluded := fun creation hmem _ => by
      obtain ⟨outcome, hcomes, -⟩ := hsettled.tells.exists_outcome hmem
      exact ⟨outcome, hcomes⟩
    constructed := fun object => hsettled.tells.made_iff
    once := by
      refine (hsettled.tells.once fun slot => ⟨_, _, hsettled.turns slot⟩).imp fun honce hslot hsucceeds => ?_
      exact hslot ▸ honce hsucceeds
    quiet := by
      rintro object before after rfl
      exact (hsettled.turns _).quiet_after
    never_again := fun object hmade q c depth => by
      obtain ⟨cell, hturns⟩ := (Query.unwinds Conduct.lawful_lax Conduct.engages_lax trivial hsettled.idle trivial
        depth).turns (.shared entry.number)
      rw [(hsettled.ready_iff object).mpr hmade] at hturns
      exact ⟨Query.creations_ne hturns.of_ready.2, hturns.of_ready.2⟩
    only_shared := fun request v visit hcalled hvisit hsite => by
      obtain ⟨hjoined, hamong⟩ := hsettled.among hcalled
      exact ((Call.visit_joins hoffers hjoined hamong hvisit).shares hsite).2.2
    given := fun request v object hcalled hgives => (hsettled.ready_iff object).mp (hsettled.given hcalled hgives)
    same := fun request request' v v' object object' hcalled hcalled' hgives hgives' =>
      Cell.ready.inj ((hsettled.given hcalled hgives).symm.trans (hsettled.given hcalled' hgives'))
    next := fun _ _ _ _ _ hc hsite hrun => h.constructed_of_run hoffers hc hsite hrun
    shared := fun _ _ _ _ hc hcomponent hsite hmade => hsettled.request_shared hoffers hc hcomponent hsite hmade
    again := fun _ _ _ hc hcomponent hsite hunmade => hsettled.request_unshared hoffers hc hcomponent hsite hunmade }

end Main

/-! ### A value that is constructed at the second attempt -/

/-- The reluctant catalog offers its only entry to everyone. -/
theorem Catalog.offers_reluctant : Catalog.reluctant.Offers (fun _ => True) .reluctant where
  listed := rfl
  isShared := rfl
  distinct _ hother _ := List.mem_singleton.mp hother
  within other hother key context := by
    obtain rfl := List.mem_singleton.mp hother
    intro tried
    cases tried
    · trivial
    · exact fun object => trivial

/-- What a component is built from that falls back on the catalog, with a binding of another type that needs the
shared value. -/
def ComponentBuilder.reluctant : ComponentBuilder Unit Bool :=
  ⟨[], [], [], [.ofProvider (.nth 1) .factory (.inject (.nth 0)) fun _ => pure (.ok ())],
    ⟨none, [Catalog.reluctant.factory]⟩⟩

/-- Such a component shares the value: its only binding is of another type and injects the value. -/
theorem ComponentBuilder.joins_reluctant :
    ComponentBuilder.reluctant.Joins (fun _ => True) .reluctant CatalogEntry.reluctant where
  parents := nofun
  factories := rfl
  modules := nofun
  bindings binding hbinding := by
    obtain rfl := List.mem_singleton.mp hbinding
    refine ⟨fun context reply => ?_, by decide⟩
    change ((Query.get (.nth 0) []).receive reply _).Within _ _ _
    unfold Query.receive
    generalize (Query.get (.nth 0) []).accept reply = accepted
    rcases reply with e | _ | object <;> rcases accepted with e' | _ | object' <;>
      first | trivial | exact fun made => trivial

/-- Two components without parents: what fails at the first is constructed as a dependency at the second, and both
come to the same object then. -/
theorem World.Shares.one_object_reluctant :
    ∃ (journal : List (Moment Unit Bool)) (creations : List (Creation Unit Bool))
      (w₁ w₂ w₃ w₄ w₅ w₆ : World Unit Bool) (e : ResolveError) (object other : Object Unit),
      (World.initial false).build .reluctant = .ok (0, w₁) ∧ w₁.build .reluctant = .ok (1, w₂) ∧
        w₂.run 4 ((Query.get (.nth 0) []).task 0) = .ok (.error e, w₃) ∧
          w₃.run 4 ((Query.get (.nth 1) []).task 1) = .ok (.ok (some other), w₄) ∧
            w₄.run 4 ((Query.get (.nth 0) []).task 0) = .ok (.ok (some object), w₅) ∧
              w₅.run 4 ((Query.get (.nth 0) []).task 1) = .ok (.ok (some object), w₆) ∧
                w₆.OneObject (fun _ => True) .reluctant journal creations ∧
                  (∃ failed ∈ w₂.creations 4 (Query.get (.nth 0) []) 0, failed.slot = .shared 0) ∧
                    (∃ made ∈ creations, made.slot = .shared 0 ∧ made.ComesTo (.ok object)) ∧
                      .ended (.shared 0) .empty ∈ journal := by
  obtain ⟨w₁, w₂, w₃, w₄, w₅, w₆, e, object, other, hfirst, hsecond, hfails, hneeds, hgets, hagain, hfailed, hempty,
      hready⟩ :
      ∃ (w₁ w₂ w₃ w₄ w₅ w₆ : World Unit Bool) (e : ResolveError) (object other : Object Unit),
        (World.initial false).build .reluctant = .ok (0, w₁) ∧ w₁.build .reluctant = .ok (1, w₂) ∧
          w₂.run 4 ((Query.get (.nth 0) []).task 0) = .ok (.error e, w₃) ∧
            w₃.run 4 ((Query.get (.nth 1) []).task 1) = .ok (.ok (some other), w₄) ∧
              w₄.run 4 ((Query.get (.nth 0) []).task 0) = .ok (.ok (some object), w₅) ∧
                w₅.run 4 ((Query.get (.nth 0) []).task 1) = .ok (.ok (some object), w₆) ∧
                  (∃ failed ∈ w₂.creations 4 (Query.get (.nth 0) []) 0, failed.slot = .shared 0) ∧
                    .ended (.shared 0) .empty ∈ w₂.journal 4 ((Query.get (.nth 0) []).task 0) ∧
                      .ended (.shared 0) (.ready object) ∈ w₃.journal 4 ((Query.get (.nth 1) []).task 1) :=
    ⟨_, _, _, _, _, _, _, _, _, rfl, rfl, rfl, rfl, rfl, rfl, ⟨_, .tail _ (.head _), rfl⟩,
      .tail _ (.tail _ (.tail _ (.head _))), .tail _ (.tail _ (.tail _ (.tail _ (.head _))))⟩
  have hjoins (c : ComponentId) (_ : True) := ComponentBuilder.joins_reluctant
  have hbuilt : w₂.Shares (fun _ => True) .reluctant .reluctant [] [] :=
    .built (.built (.initial false) (hjoins 0) hfirst) (hjoins 1) hsecond
  have hshares := (((hbuilt.requested trivial hfails).requested trivial hneeds).requested trivial hgets).requested
    trivial hagain
  have hone := one_object Catalog.offers_reluctant hshares
  refine ⟨_, _, w₁, w₂, w₃, w₄, w₅, w₆, e, object, other, hfirst, hsecond, hfails, hneeds, hgets, hagain, hone,
    hfailed, (hone.constructed object).mp ?_, by simp [hempty]⟩
  exact List.mem_append_left _ (List.mem_append_left _ (List.mem_append_right _ hready))

end Injection

import Injection.Proofs.Construction
import Injection.Proofs.Discretion
import Injection.Proofs.Forwarding

/-!
# Parameters do not leak

A definition is heedless of parameters if it is the same whichever it is handed. A request that is served by such a
definition, be it by way of components that forward to it, comes to the same with any parameters: parameters are not
kept anywhere and reach nobody else. Dependencies have none, so one that is served by a binding with a value for each
list of parameters fails for the lack of them.
-/

namespace Injection

variable {V E α β : Type}

/-! ### Definitions that read no parameters -/

section Definitions

/-- What dependencies are put together from that read no parameters: they are injected, or are arguments of a
described constructor that are all dependencies. -/
inductive Dependency.Parameterless : {α : Type} → Dependency V E α → Prop where
  | inject (type : TypeInfo) : Parameterless (inject type)
  | injectOptional (type : TypeInfo) : Parameterless (injectOptional type)
  | injectNamed (type : TypeInfo) (name : String) : Parameterless (injectNamed type name)
  | nothing : Parameterless nothing
  | map {α β : Type} {dependency : Dependency V E α} (f : α → β) :
    Parameterless dependency → Parameterless (dependency.map f)
  | both {α β : Type} {first : Dependency V E α} {second : Dependency V E β} :
    Parameterless first → Parameterless second → Parameterless (first.both second)
  | all {α : Type} {dependencies : List (Dependency V E α)} :
    (∀ dependency ∈ dependencies, Parameterless dependency) → Parameterless (all dependencies)
  | supply (key : Key) {arguments : List Argument} :
    (∀ name index, .parameter name index ∉ arguments) → Parameterless (CatalogEntry.supply key arguments)

/-- The binding is not one with a value for each list of parameters, and its definition is the same whichever
parameters it is handed. It obtains what it depends on by injection and passes no request on. -/
structure Binding.Heedless (binding : Binding V E) : Prop where
  kind : binding.kind ≠ .multi
  blind : ∀ context parameters, binding.definition { context with parameters } = binding.definition context
  injects : binding.Injects False

/-- All that a constructor can read of its arguments is the same. -/
def ConstructorArguments.Alike (args args' : ConstructorArguments V) : Prop :=
  args.length = args'.length ∧ ∀ type position, args.parameter type position = args'.parameter type position ∧
    args.optionalDependency type position = args'.optionalDependency type position

/-- What the constructor does depends only on what it can read of its arguments. -/
def CatalogEntry.ReadsArguments (entry : CatalogEntry V E) : Prop :=
  ∀ args args' : ConstructorArguments V, args.Alike args' → entry.construct args = entry.construct args'

/-- What a stored binding provides is provided by another in the end: it is the other itself, or forwards to what
leads there, in a component that is alive. -/
inductive World.ForwardsTo (w : World V E) : Stored V E → Stored V E → Prop
  | refl (stored : Stored V E) : ForwardsTo w stored stored
  | forwards {forwarder stored last : Stored V E} {binding : Binding V E} : forwarder.binding.Forwards stored →
      w.isAlive stored.owner = true → w.binding? stored.owner stored.binding.key.identity = some binding →
        ForwardsTo w ⟨stored.owner, binding⟩ last → ForwardsTo w forwarder last

/-- The stored binding that serves a call: the one that its key is located at, or the one that it names. -/
def Call.serving? [Hashed V] : Call V → World V E → Option (Stored V E)
  | resolve c _ resolution key _, w =>
    match (w.emit resolution.logger (.lookup key)).run 0 (Resolution.locate resolution key c) with
    | .ok (.ok located, _) => located
    | _ => none
  | obtain owner key _, w => (w.binding? owner key.identity).map (Stored.mk owner)

end Definitions

section Heedless

/-- Arguments that are all dependencies are supplied in the same way in every context, and as dependencies. -/
theorem CatalogEntry.supply_congr {key : Key} {arguments : List Argument}
    (h : ∀ name index, .parameter name index ∉ arguments) {context context' : Context V}
    {next next' : Except ResolveError (List (SuppliedArgument V)) → Program V E}
    (herror : ∀ e, next (.error e) = next' (.error e))
    (hok : ∀ values : List (Option (Object V)),
      next (.ok (values.map .dependency)) = next' (.ok (values.map .dependency))) :
    supply key arguments context next = supply key arguments context' next' := by
  induction arguments generalizing next next' with
  | nil => exact hok []
  | cons argument rest ih =>
    have hrest : ∀ name index, .parameter name index ∉ rest :=
      fun name index hmem => h name index (List.mem_cons_of_mem _ hmem)
    cases argument with
    | parameter name index => exact absurd List.mem_cons_self (h name index)
    | dependency name type qualifier nullable =>
      refine congrArg (Program.request _ _) (funext fun reply => ?_)
      cases reply with
      | error e => exact herror e
      | ok value => exact ih hrest (fun e => herror e) fun values => hok (value :: values)

/-- Two dependencies are obtained in the same way in two contexts if each of them is. -/
theorem Dependency.both_congr {first : Dependency V E α} {second : Dependency V E β} {context context' : Context V}
    (h : first context = first context') (h' : second context = second context') :
    first.both second context = first.both second context' := by
  unfold both
  rw [h, h']

/-- A list of dependencies is obtained in the same way in two contexts if each of them is. -/
theorem Dependency.all_congr {dependencies : List (Dependency V E α)} {context context' : Context V}
    (h : ∀ dependency ∈ dependencies, dependency context = dependency context') :
    all dependencies context = all dependencies context' := by
  induction dependencies with
  | nil => rfl
  | cons first rest ih =>
    obtain ⟨hfirst, hrest⟩ := List.forall_mem_cons.mp h
    exact congrArg (· >>= _) (both_congr hfirst (ih hrest))

namespace Dependency.Parameterless

/-- Such dependencies are obtained in the same way in every context. -/
theorem eq {dependency : Dependency V E α} (h : dependency.Parameterless) (context context' : Context V) :
    dependency context = dependency context' := by
  induction h with
  | inject type | injectOptional type | injectNamed type name | nothing => rfl
  | map f _ ih => exact congrArg (· >>= _) ih
  | both _ _ ih ih' => exact both_congr ih ih'
  | all _ ih => exact all_congr ih
  | supply key h => exact funext fun next => CatalogEntry.supply_congr h (fun _ => rfl) fun _ => rfl

/-- Dependencies that read no parameters are standard ones. -/
theorem standard {dependency : Dependency V E α} (h : dependency.Parameterless) : dependency.Standard := by
  induction h with
  | inject type => exact .inject type
  | injectOptional type => exact .injectOptional type
  | injectNamed type name => exact .injectNamed type name
  | nothing => exact .nothing
  | map f _ ih => exact .map f ih
  | both _ _ ih ih' => exact .both ih ih'
  | all _ ih => exact .all ih
  | supply key _ => exact .supply key _

end Dependency.Parameterless

variable {kind : Kind} (hkind : kind ≠ .multi)
include hkind

/-- A provider function whose dependencies read no parameters makes a heedless binding. -/
theorem Binding.ofProvider_heedless {dependencies : Dependency V E α} {provider : α → Action V E (Except String V)}
    (h : dependencies.Parameterless) (hprovider : ∀ a, (provider a).Injects False) (type : TypeInfo) :
    (Binding.ofProvider type kind dependencies provider).Heedless where
  kind := hkind
  blind context parameters := by
    unfold Binding.ofProvider Binding.new Definition.ofProvider Definition.withDependencies
    dsimp only
    rw [h.eq { context with parameters } context]
  injects := Binding.ofProvider_injects h.standard hprovider type kind

/-- An entry whose arguments are all dependencies makes heedless bindings, if its constructor reads only what it is
given and requests nothing. -/
theorem CatalogEntry.definition_heedless {entry : CatalogEntry V E}
    (h : ∀ name index, .parameter name index ∉ entry.descriptor.arguments) (hreads : entry.ReadsArguments)
    (hconstruct : ∀ args, (entry.construct args).Injects False) (key : Key) :
    (Binding.new key kind (entry.definition key)).Heedless where
  kind := hkind
  blind context parameters := by
    unfold Binding.new
    dsimp only
    rw [definition_eq, definition_eq]
    refine supply_congr h (fun _ => rfl) fun values => ?_
    unfold finish complete
    dsimp only
    rw [hreads ⟨values.map .dependency, parameters⟩ ⟨values.map .dependency, context.parameters⟩]
    refine ⟨rfl, fun type position => ⟨?_, rfl⟩⟩
    unfold ConstructorArguments.parameter
    rw [List.getElem?_map]
    cases values[position]? <;> rfl
  injects := entry.definition_injects hconstruct key

/-- So does such an entry if its object is shared. -/
theorem CatalogEntry.sharedDefinition_heedless {entry : CatalogEntry V E}
    (h : ∀ name index, .parameter name index ∉ entry.descriptor.arguments) (hreads : entry.ReadsArguments)
    (hconstruct : ∀ args, (entry.construct args).Injects False) (key : Key) :
    (Binding.new key kind (entry.sharedDefinition key)).Heedless where
  kind := hkind
  blind context parameters := by
    have hdefinition := (definition_heedless hkind h hreads hconstruct key).blind context parameters
    exact congrArg (Program.share entry.number · _) hdefinition
  injects := entry.sharedDefinition_injects hconstruct key

omit hkind in
/-- A heedless binding that is decorated is heedless. -/
theorem Binding.Heedless.decorate {binding : Binding V E} (h : binding.Heedless) {f : Object V → Action V E V}
    (hf : ∀ object, (f object).Injects False) (type : TypeInfo) : (binding.decorate type f).Heedless where
  kind := h.kind
  blind context parameters := congrArg (Program.andThen · _) (h.blind context parameters)
  injects := h.injects.decorate hf type

end Heedless

/-! ### Runs with different parameters -/

section Runs

variable {w u : World V E} {stored last : Stored V E} {context : Context V}

/-- What a program does that passes no request on does not depend on the parameters. -/
theorem Program.Injects.toTask_eq {program : Program V E} (h : program.Injects False) (context : Context V)
    (parameters : Parameters V) : program.toTask { context with parameters } = program.toTask context := by
  induction program with
  | done outcome => rfl
  | request key ps next ih => exact congrArg (Task.call _) (funext fun reply => ih reply (h.2 reply))
  | start component key ps next ih => exact h.elim
  | forward owner key next ih => exact h.1.elim
  | share entry body next ihbody ih =>
    unfold toTask
    rw [ihbody h.1]
    exact congrArg (Task.bind _) (funext fun reply => ih reply (h.2 reply))
  | make type value next ih => exact congrArg (Task.act _) (funext fun w => ih _ (h _))
  | touch change next ih => exact congrArg (Task.act _) (funext fun w => ih _ (h _))
  | report event next ih => exact congrArg (Task.act _) (funext fun _ => ih h)
  | meet gate next ih => exact congrArg (Task.meet _) (ih h)

variable [Hashed V]

/-- The value of a heedless binding is obtained in the same way with any parameters. -/
theorem Binding.Heedless.obtain_eq (h : stored.binding.Heedless) (context : Context V) (parameters : Parameters V) :
    stored.obtain { context with parameters } = stored.obtain context := by
  have hcreate : stored.create { context with parameters } = stored.create context := by
    unfold Stored.create
    rw [h.blind, (h.injects context).toTask_eq]
  unfold Stored.obtain
  cases hkind : stored.binding.kind with
  | factory => exact hcreate
  | single =>
    dsimp only
    rw [hcreate]
    rfl
  | multi => exact absurd hkind h.kind

/-- So is that of one that leads to a heedless binding. -/
theorem World.ForwardsTo.obtain_run (h : w.ForwardsTo stored last) (hlast : last.binding.Heedless) (depth : Nat)
    (context : Context V) (parameters : Parameters V) :
    (stored.obtain { context with parameters }).run (Call.answer depth) w =
      (stored.obtain context).run (Call.answer depth) w := by
  -- Each component that forwards adds one level of nesting and hands on the context that it was given.
  induction h generalizing depth context with
  | refl stored => rw [hlast.obtain_eq]
  | @forwards forwarder target last binding hforwards halive hbinding _ ih =>
    cases depth with
    | zero =>
      rw [hforwards.obtain_eq, hforwards.obtain_eq]
      simp [Task.run, halive, Call.answer]
    | succ depth =>
      rw [hforwards.obtain_run halive hbinding, hforwards.obtain_run halive hbinding, Task.run_bind, Task.run_bind]
      exact congrArg (Except.bind · _) (ih hlast depth { context with component := target.owner })

/-- What leads to a binding with a value for each list of parameters cannot be obtained without any. -/
theorem World.ForwardsTo.obtain_without (h : w.ForwardsTo stored last) (hmulti : last.binding.kind = .multi)
    (context : Context V) (hnone : context.parameters = []) :
    ∃ depth e, (stored.obtain context).run (Call.answer depth) w = .ok (.error e, w) ∧
      e.rootCause = .missingParameters last.binding.key := by
  induction h generalizing context with
  | refl stored =>
    refine ⟨0, .missingParameters stored.binding.key, ?_, rfl⟩
    unfold Stored.obtain
    simp only [hmulti, hnone]
    rfl
  | @forwards forwarder target last binding hforwards halive hbinding _ ih =>
    obtain ⟨depth, e, hrun, hcause⟩ := ih hmulti { context with component := target.owner } hnone
    refine ⟨depth + 1, .dependency e, ?_, hcause⟩
    rw [hforwards.obtain_run halive hbinding, Task.run_bind_of_ok hrun]
    rfl

end Runs

/-! ### Calls -/

section Calls

variable [Hashed V] {c : ComponentId} {path : List Key} {resolution : Resolution} {key : Key} {ps : Parameters V}
  {w u : World V E} {stored last : Stored V E}

/-- What serves a call is what its key is located at. -/
theorem Call.serving?_eq_some {located : Except ResolveError (Option (Stored V E))}
    (hlocate : ∀ answer, (Resolution.locate resolution key c).run answer (w.emit resolution.logger (.lookup key)) =
      .ok (located, u)) :
    (Call.resolve c path resolution key ps).serving? w = some stored ↔ located = .ok (some stored) := by
  simp only [Call.serving?, World.run, hlocate]
  cases located <;> simp

variable (hfresh : ∀ visited ∈ path, visited.site ≠ key.site)
include hfresh

/-- A call that is served by what leads to a heedless binding is answered alike with any parameters. -/
theorem Call.answer_heedless (hserving : ∀ stored, (Call.resolve c path resolution key ps).serving? w = some stored →
      ∃ last, ((Call.resolve c path resolution key ps).located w).ForwardsTo stored last ∧ last.binding.Heedless)
    (parameters : Parameters V) (depth : Nat) : Call.answer depth (.resolve c path resolution key parameters) w =
      Call.answer depth (.resolve c path resolution key ps) w := by
  cases depth with
  | zero => rfl
  | succ depth =>
    obtain ⟨located, u, hlocate⟩ := (Resolution.locate_acts (V := V) (E := E) resolution key c).exists_run
      (w.emit resolution.logger (.lookup key))
    rw [Call.located_resolve hfresh hlocate] at hserving
    rw [Call.answer_resolve hfresh hlocate, Call.answer_resolve hfresh hlocate]
    match located, hserving with
    | .error e, _ => rfl
    | .ok none, _ => rfl
    | .ok (some stored), hserving =>
      obtain ⟨last, hleads, hheedless⟩ := hserving stored ((Call.serving?_eq_some hlocate).mpr rfl)
      unfold Resolution.conclude
      dsimp only
      rw [Task.run_bind, Task.run_bind]
      exact congrArg (Except.bind · _) (hleads.obtain_run hheedless depth
        { component := stored.owner, key, parameters := ps, path := path ++ [key], resolution } parameters)

/-- A call without parameters that is served by what leads to a binding with a value for each list of them fails for
the lack of them. -/
theorem Call.answer_without (hserving : (Call.resolve c path resolution key []).serving? w = some stored)
    (hleads : ((Call.resolve c path resolution key []).located w).ForwardsTo stored last)
    (hmulti : last.binding.kind = .multi) :
    ∃ depth e w', Call.answer depth (.resolve c path resolution key []) w = .ok (.error e, w') ∧
      e.rootCause = .missingParameters last.binding.key := by
  obtain ⟨located, u, hlocate⟩ := (Resolution.locate_acts (V := V) (E := E) resolution key c).exists_run
    (w.emit resolution.logger (.lookup key))
  rw [Call.located_resolve hfresh hlocate] at hleads
  obtain rfl := (Call.serving?_eq_some hlocate).mp hserving
  obtain ⟨depth, e, hrun, hcause⟩ := hleads.obtain_without hmulti
    { component := stored.owner, key, parameters := [], path := path ++ [key], resolution } rfl
  refine ⟨depth + 1, e, u.emit resolution.logger (.failure e), ?_, hcause⟩
  rw [Call.answer_resolve hfresh hlocate]
  exact Task.run_bind_of_ok hrun

end Calls

/-! ### Top-level requests -/

/-- Where all definitions obtain their dependencies by injection, the parameters of a top-level request get no further
than to the definition that serves it. If that one, once what forwards is followed, reads no parameters and is not one
with a value for each list of them, the request comes to the same reply and leaves the same world with any other
parameters. Every definition below it is handed an empty list, be it of a stored binding, of one that is synthesized
meanwhile, of one that forwards or of the object that an entry shares. A dependency that is served by a binding with
a value for each list of parameters fails for the lack of them, unless its key is under construction already. -/
theorem World.Injecting.parameters_stay [Hashed V] {w : World V E} (hw : w.Injecting) (c : ComponentId) (q : Query V)
    (depth : Nat) :
    ((∀ stored, (q.call c w).serving? w.entered = some stored →
        ∃ last, ((q.call c w).located w.entered).ForwardsTo stored last ∧ last.binding.Heedless) →
      ∀ parameters, w.run depth (({ q with parameters } : Query V).task c) = w.run depth (q.task c)) ∧
      (∀ visit, w.Visits depth (q.task c) visit →
        visit.context.path = [q.key] ∧ visit.context.parameters = q.parameters ∨
          1 < visit.context.path.length ∧ visit.context.parameters = []) ∧
      ∀ d path resolution key ps v, .called (.resolve d path resolution key ps) v ∈ w.journal depth (q.task c) →
        path ≠ [] → ps = [] ∧
          ((∀ visited ∈ path, visited.site ≠ key.site) → ∀ stored last,
            (Call.resolve d path resolution key ps).serving? v = some stored →
              ((Call.resolve d path resolution key ps).located v).ForwardsTo stored last → last.binding.kind = .multi →
                ∃ depth' e v', Call.answer depth' (.resolve d path resolution key ps) v = .ok (.error e, v') ∧
                  e.rootCause = .missingParameters last.binding.key) := by
  have hself : (q.call c w).Discreet q := Or.inl ⟨rfl, rfl, rfl⟩
  have hcalled {request : Call V} {v : World V E} (h : .called request v ∈ w.journal depth (q.task c)) :
      request.Discreet q := by
    rw [q.journal_task] at h
    exact hself.of_called (u := w.entered) hw h
  refine ⟨fun hserving parameters => ?_, ?_, ?_⟩
  · rw [Query.run_eq, Query.run_eq]
    exact congrArg (Except.map _) (Call.answer_heedless (by simp) hserving parameters depth)
  · rintro visit ⟨request, v, hmem, hvisit⟩
    exact (hcalled hmem).context hvisit
  · intro d path resolution key ps v hmem hpath
    obtain rfl : ps = [] := by
      rcases hcalled hmem with ⟨hempty, -⟩ | ⟨-, hnone⟩
      · exact absurd hempty hpath
      · exact hnone
    exact ⟨rfl, fun hfresh stored last hserving hleads => Call.answer_without hfresh hserving hleads⟩

/-! ### Small worlds -/

/-- The bindings of small worlds read no parameters. -/
theorem Binding.nth_heedless (n : UInt64) (needs : List UInt64) : (Binding.nth n needs).Heedless := by
  refine Binding.ofProvider_heedless (by decide) (.all ?_) (fun _ => Action.injects_pure _) _
  intro dependency hdependency
  obtain ⟨k, -, rfl⟩ := List.mem_map.mp hdependency
  exact .inject _

/-- Components that store only bindings of the types that small worlds are about, of any kind, and fall back on
catalogs of such types inject. -/
theorem Component.injects_nth {component : Component Unit Unit}
    (hbindings : ∀ binding ∈ component.bindings, ∃ n needs kind, binding = (Binding.nth n needs).withKind kind)
    (hfactories : ∀ factory ∈ component.config.factories, ∃ catalog : Catalog Unit Unit,
      (∀ entry ∈ catalog.entries, ∃ n scope, entry = .nth n scope) ∧ factory = catalog.factory) :
    component.Injects where
  bindings binding hbinding := by
    obtain ⟨n, needs, kind, rfl⟩ := hbindings binding hbinding
    exact fun context => ((Binding.nth_heedless n needs).injects context).mono False.elim
  factories factory hfactory key c := by
    obtain ⟨catalog, hcatalog, rfl⟩ := hfactories factory hfactory
    refine Catalog.Injects.factory (fun entry hentry args => ?_) key c
    obtain ⟨n, scope, rfl⟩ := hcatalog entry hentry
    exact Action.injects_pure _

/-- The family with a child that stores a binding of a third type, which needs the second type and a fourth one, and one
of the fourth type with a value for each list of parameters. -/
def World.clan : World Unit Unit :=
  { World.family with
    components := World.family.components.modify 1 fun child =>
      { child with bindings := [.nth 2 [1, 3], (Binding.nth 3 []).withKind .multi] } }

/-- All definitions of the clan inject what they need, those of its catalogs included. -/
theorem World.injecting_clan : World.clan.Injecting := by
  have hcatalog : ∀ factory ∈ [Catalog.factory ⟨[.nth 0 none, .nth 1 (some DefaultScope.app.tag)]⟩],
      ∃ catalog : Catalog Unit Unit, (∀ entry ∈ catalog.entries, ∃ n scope, entry = .nth n scope) ∧
        factory = catalog.factory :=
    fun factory hfactory => ⟨_, by simp, List.mem_singleton.mp hfactory⟩
  intro c component hcomponent
  match c, hcomponent with
  | 0, rfl => exact Component.injects_nth (by simp) hcatalog
  | 1, rfl =>
    refine Component.injects_nth (fun binding hbinding => ?_) hcatalog
    rcases List.mem_cons.mp hbinding with rfl | hlast
    · exact ⟨2, _, .single, rfl⟩
    · exact ⟨3, _, .multi, List.mem_singleton.mp hlast⟩

/-- With whichever parameters the third type is requested of the child, the parent makes the second type without any,
and the fourth one fails for the lack of them. -/
theorem World.Injecting.parameters_stay_clan :
    let q : Query Unit := .get (.nth 2) [⟨.nth 4, ()⟩]
    World.clan.Injecting ∧
      (∀ parameters, World.clan.run 4 (({ q with parameters } : Query Unit).task 1) = World.clan.run 4 (q.task 1)) ∧
      (∃ visit, World.clan.Visits 4 (q.task 1) visit ∧ visit.stored.owner = 0 ∧ visit.context.parameters = []) ∧
      ∃ path resolution v depth e v',
        .called (.resolve 1 path resolution (.of (.nth 3)) []) v ∈ World.clan.journal 4 (q.task 1) ∧
          Call.answer depth (.resolve 1 path resolution (.of (.nth 3)) []) v = .ok (.error e, v') ∧
            e.rootCause = .missingParameters (.of (.nth 3)) := by
  intro q
  obtain ⟨hblind, hvisits, hmulti⟩ := injecting_clan.parameters_stay 1 q 4
  refine ⟨injecting_clan, hblind fun stored hstored => ?_, ?_, ?_⟩
  · obtain rfl := Option.some.inj hstored
    exact ⟨_, .refl _, Binding.nth_heedless 2 [1, 3]⟩
  · obtain ⟨request, v, hcalled, hvisit⟩ : ∃ request v,
        (World.clan.journal 4 ((Query.get (.nth 2) [⟨.nth 4, ()⟩]).task 1))[3]? = some (.called request v) ∧
          (request.visit? v).map (fun visit => (visit.stored.owner, visit.context.path.length)) = some (0, 2) :=
      ⟨_, _, rfl, rfl⟩
    obtain ⟨visit, hvisit, hsummary⟩ := Option.map_eq_some_iff.mp hvisit
    obtain ⟨howner, hpath⟩ := Prod.mk.inj hsummary
    have hmade : World.clan.Visits 4 (q.task 1) visit := ⟨request, v, List.mem_of_getElem? hcalled, hvisit⟩
    refine ⟨visit, hmade, howner, ?_⟩
    rcases hvisits visit hmade with ⟨hself, -⟩ | ⟨-, hnone⟩
    · simp [hself] at hpath
    · exact hnone
  · obtain ⟨path, resolution, v, stored, hcalled, hpath, hstored, hkind⟩ :
      ∃ path resolution v, ∃ stored : Stored Unit Unit,
        (World.clan.journal 4 ((Query.get (.nth 2) [⟨.nth 4, ()⟩]).task 1))[6]? =
            some (.called (.resolve 1 path resolution (.of (.nth 3)) []) v) ∧
          path = [.of (.nth 2)] ∧ (Call.resolve 1 path resolution (.of (.nth 3)) []).serving? v = some stored ∧
            stored.binding = (Binding.nth 3 []).withKind .multi := ⟨_, _, _, _, rfl, rfl, rfl, rfl⟩
    have hmem := List.mem_of_getElem? hcalled
    obtain ⟨-, hfails⟩ := hmulti _ _ _ _ _ _ hmem (by simp [hpath])
    obtain ⟨depth, e, v', hanswer, hcause⟩ := hfails (by subst hpath; decide) stored stored hstored (.refl _)
      (congrArg Binding.kind hkind)
    exact ⟨path, resolution, v, depth, e, v', hmem, hanswer, hcause.trans (by rw [hkind]; rfl)⟩

/-- A parent that stores a binding of the first type with a value for each list of parameters, and one of the second
type that needs the first. Its child stores one of the first type that needs the second. -/
def World.eclipsed : World Unit Unit :=
  { World.initial () with
    components := [⟨[], [], [(Binding.nth 0 []).withKind .multi, .nth 1 [0]], .default, true⟩,
      ⟨[], [0], [.nth 0 [1]], .default, true⟩] }

/-- Requested of the child, the first type comes to depend on the parent's binding of it, which has a value for each
list of parameters. That request does not fail for the lack of them: its key is under construction. -/
theorem World.eclipsed_cyclic :
    let q : Query Unit := .get (.nth 0) []
    World.eclipsed.Injecting ∧
      (∃ stored, (q.call 1 World.eclipsed).serving? World.eclipsed.entered = some stored ∧ stored.binding.Heedless) ∧
      ∃ path resolution v stored e v',
        .called (.resolve 0 path resolution (.of (.nth 0)) []) v ∈ World.eclipsed.journal 4 (q.task 1) ∧ path ≠ [] ∧
          (Call.resolve 0 path resolution (.of (.nth 0)) []).serving? v = some stored ∧
            stored.binding = (Binding.nth 0 []).withKind .multi ∧
              Call.answer 4 (.resolve 0 path resolution (.of (.nth 0)) []) v = .ok (.error e, v') ∧
                ∀ key, e.rootCause ≠ .missingParameters key := by
  intro q
  refine ⟨?_, ⟨⟨1, .nth 0 [1]⟩, rfl, Binding.nth_heedless 0 [1]⟩, ?_⟩
  · intro c component hcomponent
    match c, hcomponent with
    | 0, rfl =>
      refine Component.injects_nth (fun binding hbinding => ?_) (by simp [ComponentConfig.default])
      rcases List.mem_cons.mp hbinding with rfl | hlast
      · exact ⟨0, _, .multi, rfl⟩
      · exact ⟨1, _, .single, List.mem_singleton.mp hlast⟩
    | 1, rfl =>
      exact Component.injects_nth (fun binding hbinding => ⟨0, _, .single, List.mem_singleton.mp hbinding⟩)
        (by simp [ComponentConfig.default])
  · obtain ⟨path, resolution, v, stored, e, v', hcalled, hpath, hstored, hkind, hanswer, hcause⟩ :
        ∃ path resolution v, ∃ stored : Stored Unit Unit, ∃ e v',
          (World.eclipsed.journal 4 ((Query.get (.nth 0) []).task 1))[4]? =
              some (.called (.resolve 0 path resolution (.of (.nth 0)) []) v) ∧
            path = [.of (.nth 0), .of (.nth 1)] ∧
              (Call.resolve 0 path resolution (.of (.nth 0)) []).serving? v = some stored ∧
                stored.binding = (Binding.nth 0 []).withKind .multi ∧
                  Call.answer 4 (.resolve 0 path resolution (.of (.nth 0)) []) v = .ok (.error e, v') ∧
                    e = .cyclicDependency (path ++ [.of (.nth 0)]) := ⟨_, _, _, _, _, _, rfl, rfl, rfl, rfl, rfl, rfl⟩
    refine ⟨path, resolution, v, stored, e, v', List.mem_of_getElem? hcalled, by simp [hpath], hstored, hkind, hanswer,
      ?_⟩
    simp [hcause, ResolveError.rootCause]

end Injection

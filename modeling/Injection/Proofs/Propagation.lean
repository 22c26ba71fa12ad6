import Injection.Binding
import Injection.Proofs.Inquiry

/-!
# Dependencies that fail

A request that fails while a definition obtains its dependencies ends the definition: what provides the value
is not called, and the definition comes to the failure of its dependency. Dependencies propagate failures in
this way however they are put together. A definition that is run for a call decides what the call is replied to,
whether its value is kept or not.
-/

namespace Injection

variable {V E α β : Type}

/-! ### Dependencies that propagate failures -/

namespace Action

/-- The action yields the failure, after nothing but reports. -/
inductive Raises (e : ResolveError) : Action V E (Except ResolveError α) → Prop
  | result : Raises e (pure (.error e))
  | report {action : Action V E (Except ResolveError α)} (event : Event) :
    Raises e action → Raises e (Action.report event >>= fun _ => action)

/-- As soon as one of its requests fails, the action yields the failure, after nothing but reports. -/
inductive Propagates : Action V E (Except ResolveError α) → Prop
  | result (result : Except ResolveError α) : Propagates (pure result)
  | request (key : Key) (parameters : Parameters V) {rest : Reply V → Action V E (Except ResolveError α)} :
    (∀ e, Raises e (rest (.error e))) → (∀ reply, Propagates (rest reply)) →
      Propagates (Action.request key parameters >>= rest)
  | start (c : ComponentId) (key : Key) (parameters : Parameters V)
    {rest : Reply V → Action V E (Except ResolveError α)} :
    (∀ e, Raises e (rest (.error e))) → (∀ reply, Propagates (rest reply)) →
      Propagates (Action.start c key parameters >>= rest)
  | make (type : TypeId) (value : V) {rest : Object V → Action V E (Except ResolveError α)} :
    (∀ object, Propagates (rest object)) → Propagates (Action.make type value >>= rest)
  | touch (change : E → E) {rest : E → Action V E (Except ResolveError α)} :
    (∀ before, Propagates (rest before)) → Propagates (Action.touch change >>= rest)
  | report (event : Event) {action : Action V E (Except ResolveError α)} :
    Propagates action → Propagates (Action.report event >>= fun _ => action)
  | meet (gate : String) {action : Action V E (Except ResolveError α)} :
    Propagates action → Propagates (Action.meet gate >>= fun _ => action)

/-- An action that ends with a failure propagates every failure. -/
theorem Raises.propagates {e : ResolveError} {action : Action V E (Except ResolveError α)} (h : action.Raises e) :
    action.Propagates := by
  induction h with
  | result => exact .result _
  | report event _ ih => exact .report event ih

/-- What comes after a failure ends with it if it passes it on. -/
theorem Raises.bind {e : ResolveError} {action : Action V E (Except ResolveError α)}
    {f : Except ResolveError α → Action V E (Except ResolveError β)} (h : action.Raises e)
    (hf : (f (.error e)).Raises e) : (action >>= f).Raises e := by
  induction h with
  | result => exact hf
  | report event _ ih => exact .report event ih

/-- What goes on with a result propagates failures if it is left alone by them. -/
theorem Propagates.bind {action : Action V E (Except ResolveError α)}
    {f : Except ResolveError α → Action V E (Except ResolveError β)} (h : action.Propagates)
    (herror : ∀ e, (f (.error e)).Raises e) (hok : ∀ a, (f (.ok a)).Propagates) : (action >>= f).Propagates := by
  induction h with
  | result result =>
    cases result with
    | error e => exact (herror e).propagates
    | ok a => exact hok a
  | request key parameters hraises _ ih =>
    exact .request key parameters (fun e => (hraises e).bind (herror e)) fun reply => ih reply
  | start c key parameters hraises _ ih =>
    exact .start c key parameters (fun e => (hraises e).bind (herror e)) fun reply => ih reply
  | make type value _ ih => exact .make type value fun object => ih object
  | touch change _ ih => exact .touch change fun before => ih before
  | report event _ ih => exact .report event ih
  | meet gate _ ih => exact .meet gate ih

end Action

namespace Query

/-- What a query accepts propagates failures. -/
theorem receive_propagates (q : Query V) (reply : Reply V) : (q.receive reply : Action V E (Reply V)).Propagates := by
  unfold receive
  split
  · exact .report _ (.result _)
  · exact .result _

/-- A query in the context propagates failures. -/
theorem inContext_propagates (q : Query V) : (q.inContext : Action V E (Reply V)).Propagates :=
  .request q.key q.parameters (fun _ => .result) q.receive_propagates

/-- A query afresh propagates failures. -/
theorem afresh_propagates (q : Query V) (c : ComponentId) : (q.afresh c : Action V E (Reply V)).Propagates :=
  .start c q.key q.parameters (fun _ => .result) q.receive_propagates

end Query

namespace Dependency

/-- The dependency propagates failures in every context. -/
def Propagates (dependency : Dependency V E α) : Prop := ∀ context, (dependency context).Propagates

/-- What is made of a dependency's value propagates failures if the dependency does. -/
theorem Propagates.map {dependency : Dependency V E α} (h : dependency.Propagates) (f : α → β) :
    (dependency.map f).Propagates := fun context =>
  (h context).bind (fun _ => .result) fun _ => .result _

/-- Two dependencies propagate failures if each of them does. -/
theorem Propagates.both {first : Dependency V E α} {second : Dependency V E β} (h : first.Propagates)
    (h' : second.Propagates) : (first.both second).Propagates := fun context =>
  (h context).bind (fun _ => .result) fun _ => (h' context).bind (fun _ => .result) fun _ => .result _

/-- A list of dependencies propagates failures if each of them does. -/
theorem Propagates.all {dependencies : List (Dependency V E α)} (h : ∀ dependency ∈ dependencies, dependency.Propagates) :
    (Dependency.all dependencies).Propagates := by
  induction dependencies with
  | nil => exact fun _ => .result _
  | cons first rest ih =>
    rw [List.forall_mem_cons] at h
    exact (h.1.both (ih h.2)).map _

end Dependency

/-- The arguments of a described constructor propagate failures. -/
theorem CatalogEntry.supply_propagates (key : Key) (arguments : List Argument) :
    (supply key arguments : Dependency V E (List (SuppliedArgument V))).Propagates := by
  induction arguments with
  | nil => exact fun _ => .result _
  | cons argument rest ih =>
    intro context
    cases argument with
    | parameter name index =>
      unfold supply
      split
      · exact (ih context).bind (fun _ => .result) fun _ => .result _
      · exact .result _
    | dependency name type qualifier nullable =>
      refine .request _ _ (fun _ => .result) fun reply => ?_
      cases reply with
      | error e => exact .result _
      | ok value => exact (ih context).bind (fun _ => .result) fun _ => .result _

/-- What dependencies are put together from: what is requested or handed over, one after the other, and the
arguments of a described constructor. -/
inductive Dependency.Standard : {α : Type} → Dependency V E α → Prop where
  | inject (type : TypeInfo) : Standard (inject type)
  | injectOptional (type : TypeInfo) : Standard (injectOptional type)
  | injectNamed (type : TypeInfo) (name : String) : Standard (injectNamed type name)
  | param (type : TypeInfo) (index : Nat) : Standard (param type index)
  | params : Standard params
  | context : Standard context
  | nothing : Standard nothing
  | map {α β : Type} {dependency : Dependency V E α} (f : α → β) : Standard dependency → Standard (dependency.map f)
  | both {α β : Type} {first : Dependency V E α} {second : Dependency V E β} :
    Standard first → Standard second → Standard (first.both second)
  | all {α : Type} {dependencies : List (Dependency V E α)} :
    (∀ dependency ∈ dependencies, Standard dependency) → Standard (all dependencies)
  | supply (key : Key) (arguments : List Argument) : Standard (CatalogEntry.supply key arguments)

/-- However dependencies are put together, they propagate failures. -/
theorem Dependency.Standard.propagates {dependency : Dependency V E α} (h : dependency.Standard) :
    dependency.Propagates := by
  induction h with
  | inject type | injectNamed type name =>
    exact fun _ => .report _ ((Query.inContext_propagates _).bind (fun _ => .result) fun _ => .result _)
  | injectOptional type => exact fun _ => .report _ (Query.inContext_propagates _)
  | param type index =>
    intro context
    unfold Dependency.param
    split
    · exact .result _
    · exact .report _ (.result _)
  | params | context | nothing => exact fun _ => .result _
  | map f _ ih => exact ih.map f
  | both _ _ ih ih' => exact ih.both ih'
  | all _ ih => exact .all ih
  | supply key arguments => exact CatalogEntry.supply_propagates key arguments

/-! ### What a failed request comes to -/

section Runs

variable (answer : Call V → World V E → Run V E (Reply V)) (context : Context V)

/-- The action yields a result and leaves a world, whatever comes after it. -/
def Action.ComesTo (action : Action V E α) (w : World V E) (a : α) (w' : World V E) : Prop :=
  ∀ next : α → Program V E,
    ((action next).toTask context).run answer w = ((next a).toTask context).run answer w'

/-- The action makes a call itself. -/
def Action.Makes (action : Action V E α) (w : World V E) (request : Call V) (v : World V E) : Prop :=
  ((action fun _ => .done (.error (.provider ""))).toTask context).Makes answer w request v

variable {answer context} {w v v' : World V E} {request : Call V} {e : ResolveError}

/-- An action that raises a failure comes to it in every world. -/
theorem Action.Raises.comesTo {action : Action V E (Except ResolveError α)} (h : action.Raises e) (w : World V E) :
    ∃ w', action.ComesTo answer context w (.error e) w' := by
  induction h generalizing w with
  | result => exact ⟨w, fun _ => rfl⟩
  | report event _ ih =>
    obtain ⟨w', hcomes⟩ := ih (w.emit context.resolution.logger event)
    exact ⟨w', fun next => hcomes next⟩

/-- What a call comes to that fails, or after which one fails. -/
theorem Action.call_comesTo {rest : Reply V → Action V E (Except ResolveError α)} {made : Call V}
    (hraises : ∀ e, (rest (.error e)).Raises e)
    (hrest : ∀ reply w, (rest reply).Makes answer context w request v →
      ∃ w', (rest reply).ComesTo answer context w (.error e) w')
    (hfails : answer request v = .ok (.error e, v'))
    (hmakes : (Task.call made fun reply => (rest reply fun _ => .done (.error (.provider ""))).toTask context).Makes
      answer w request v) :
    ∃ w', ∀ next : Except ResolveError α → Program V E,
      (Task.call made fun reply => (rest reply next).toTask context).run answer w =
        ((next (.error e)).toTask context).run answer w' := by
  rcases Task.makes_call hmakes with ⟨rfl, rfl⟩ | ⟨reply, between, hreply, hlater⟩
  · obtain ⟨w', hcomes⟩ := (hraises e).comesTo v'
    refine ⟨w', fun next => ?_⟩
    rw [Task.run, hfails]
    exact hcomes next
  · obtain ⟨w', hcomes⟩ := hrest reply between hlater
    refine ⟨w', fun next => ?_⟩
    rw [Task.run, hreply]
    exact hcomes next

/-- An action that propagates failures comes to the failure of a request that it makes. -/
theorem Action.Propagates.comesTo {action : Action V E (Except ResolveError α)} (h : action.Propagates)
    (hfails : answer request v = .ok (.error e, v')) (hmakes : action.Makes answer context w request v) :
    ∃ w', action.ComesTo answer context w (.error e) w' := by
  induction h generalizing w with
  | result result => cases hmakes
  | request key parameters hraises _ ih => exact call_comesTo hraises (fun reply w => ih reply) hfails hmakes
  | start c key parameters hraises _ ih => exact call_comesTo hraises (fun reply w => ih reply) hfails hmakes
  | make type value _ ih =>
    obtain ⟨w', hcomes⟩ := ih _ hmakes
    exact ⟨w', fun next => hcomes next⟩
  | touch change _ ih =>
    obtain ⟨w', hcomes⟩ := ih _ hmakes
    exact ⟨w', fun next => hcomes next⟩
  | report event _ ih =>
    obtain ⟨w', hcomes⟩ := ih hmakes
    exact ⟨w', fun next => hcomes next⟩
  | meet gate _ ih =>
    obtain ⟨w', hcomes⟩ := ih hmakes
    exact ⟨w', fun next => hcomes next⟩

/-- A definition whose dependencies come to a failure ends with it, whatever it provides its value by. -/
theorem Definition.withDependencies_failed {dependencies : Dependency V E α} {w' : World V E}
    (h : (dependencies context).ComesTo answer context w (.error e) w') (finish : α → Action V E (Outcome V)) :
    ((withDependencies dependencies finish context).toTask context).run answer w =
      .ok (.error (.dependency e), w') := h _

/-- A program goes on with its outcome. -/
theorem Program.toTask_andThen (program : Program V E) (f : Outcome V → Program V E) :
    (program.andThen f).toTask context = (program.toTask context).bind fun outcome => (f outcome).toTask context := by
  induction program with
  | done outcome => rfl
  | request key parameters next ih => exact congrArg _ (funext fun reply => ih reply)
  | start c key parameters next ih => exact congrArg _ (funext fun before => congrArg _ (funext fun reply => ih reply))
  | forward owner key next ih =>
    refine congrArg _ (funext fun before => ?_)
    dsimp only
    split
    · exact congrArg _ (funext fun reply => ih _)
    · exact ih _
  | share entry body next _ ih =>
    refine Eq.trans ?_ (Task.bind_assoc _ _ _).symm
    exact congrArg _ (funext fun reply => ih reply)
  | make type value next ih => exact congrArg _ (funext fun before => ih _)
  | touch change next ih => exact congrArg _ (funext fun before => ih _)
  | report event next ih => exact congrArg _ (funext fun before => ih)
  | meet gate next ih => exact congrArg _ ih

/-- A definition goes on with the outcome that its program comes to. -/
theorem Stored.create_run {stored : Stored V E} {outcome : Outcome V} {w' : World V E}
    (h : ((stored.binding.definition context).toTask context).run answer w = .ok (outcome, w')) :
    (stored.create context).run answer w = .ok (outcome.mapError DefinitionError.toResolveError, w') :=
  Task.run_bind_of_ok h

/-- A definition makes an object exactly if its program does. -/
theorem Stored.create_run_ok {stored : Stored V E} {object : Object V} {made : World V E} :
    (stored.create context).run answer w = .ok (.ok object, made) ↔
      ((stored.binding.definition context).toTask context).run answer w = .ok (.ok object, made) := by
  refine ⟨fun h => ?_, create_run⟩
  obtain ⟨outcome, between, hrun, hend⟩ := Task.run_bind_eq_ok h
  obtain ⟨hobject, rfl⟩ := Prod.mk.inj (Except.ok.inj hend)
  cases outcome with
  | error e => cases hobject
  | ok given => exact Except.ok.inj hobject ▸ hrun

/-- The world in which a value is made that is kept in a cell. -/
def World.opened (w : World V E) (slot : Slot) (context : Context V) : World V E :=
  (w.setCell slot (.creating context.resolution.number)).emit context.resolution.logger .notFoundInCache

/-- The other cells are as before. -/
theorem World.opened_cells_ne {slot other : Slot} (h : other ≠ slot) (w : World V E) (context : Context V) :
    (w.opened slot context).cells other = w.cells other := by
  rw [opened, emit_cells, setCell_ne h]

/-- A value that has to be made comes to what making it comes to. -/
theorem Task.keep_run {slot : Slot} {create : Task V E (Except ResolveError (Object V))}
    {result : Except ResolveError (Object V)} {made : World V E} (hempty : w.cells slot = .empty)
    (hcreate : create.run answer (w.opened slot context) = .ok (result, made)) :
    ∃ w', (Task.keep slot context create).run answer w = .ok (result, w') := by
  simp only [Task.keep, Task.run, hempty, Task.run_emit]
  cases result with
  | ok object => exact ⟨_, Task.run_bind_of_ok hcreate⟩
  | error e => exact ⟨_, Task.run_bind_of_ok hcreate⟩

/-- A value that is there is given. -/
theorem Task.keep_ready {slot : Slot} {create : Task V E (Except ResolveError (Object V))} {object : Object V}
    (hready : w.cells slot = .ready object) :
    ∃ w', (Task.keep slot context create).run answer w = .ok (.ok object, w') := by
  simp only [Task.keep, Task.run, hready, Task.run_emit]
  exact ⟨_, rfl⟩

/-- A visit is opened only where the cell is empty, and the cell is taken in its world. -/
theorem Stored.opening?_eq_some {stored : Stored V E} {slot : Slot} {visit : Visit V E}
    (h : stored.opening? context slot w = some visit) :
    w.cells slot = .empty ∧ visit = ⟨stored, context, w.opened slot context⟩ := by
  unfold opening? at h
  split at h
  · next hempty => exact ⟨hempty, (Option.some.inj h).symm⟩
  · cases h

/-- If a definition is run to obtain a value, the value is what it makes, or it is kept in a cell that was empty. -/
theorem Stored.obtain_of_visit? [Hashed V] {stored : Stored V E} {visit : Visit V E}
    (hvisit : stored.visit? context w = some visit) :
    (stored.slot? context = none ∧ visit.world = w ∧ stored.obtain context = stored.create context) ∨
      ∃ slot u, stored.slot? context = some slot ∧ u.cells = w.cells ∧ u.cells slot = .empty ∧
        visit.world = u.opened slot context ∧ ∀ answer, (stored.obtain context).run answer w =
          (Task.keep slot context (stored.create context)).run answer u := by
  unfold visit? at hvisit
  unfold slot? obtain
  dsimp only
  cases hkind : stored.binding.kind with
  | factory =>
    rw [hkind] at hvisit
    obtain rfl := Option.some.inj hvisit
    exact .inl ⟨rfl, rfl, rfl⟩
  | single =>
    rw [hkind] at hvisit
    obtain ⟨hempty, rfl⟩ := opening?_eq_some hvisit
    exact .inr ⟨_, w, rfl, rfl, hempty, rfl, fun _ => rfl⟩
  | multi =>
    rw [hkind] at hvisit
    dsimp only at hvisit ⊢
    split at hvisit
    · cases hvisit
    · next hparameters =>
      obtain ⟨hempty, rfl⟩ := opening?_eq_some hvisit
      rw [if_neg hparameters]
      exact .inr ⟨_, _, rfl, w.emit_cells _ _, hempty, rfl, fun _ => Task.run_emit _ _ _ _ _⟩

/-- The value of a stored binding whose definition is run is what the definition comes to. -/
theorem Stored.obtain_run [Hashed V] {stored : Stored V E} {visit : Visit V E}
    {result : Except ResolveError (Object V)} {made : World V E} (hvisit : stored.visit? context w = some visit)
    (hcreate : (stored.create context).run answer visit.world = .ok (result, made)) :
    ∃ w', (stored.obtain context).run answer w = .ok (result, w') := by
  obtain ⟨-, hworld, hobtain⟩ | ⟨slot, u, -, -, hempty, hworld, hobtain⟩ := obtain_of_visit? hvisit
  · rw [hobtain]
    exact ⟨made, hworld ▸ hcreate⟩
  · rw [hobtain]
    exact Task.keep_run hempty (hworld ▸ hcreate)

/-- A call that runs a definition obtains the value of the binding, in a world with the same cells, and passes it on. -/
theorem Call.body_of_visit? [Hashed V] {visit : Visit V E} (hvisit : request.visit? w = some visit) :
    ∃ (u : World V E) (finish : Except ResolveError (Object V) → Task V E (Reply V)),
      visit.stored.visit? visit.context u = some visit ∧ u.cells = w.cells ∧
        (∀ answer, request.body.run answer w = ((visit.stored.obtain visit.context).bind finish).run answer u) ∧
          ∀ result v, ∃ v', ∀ answer, (finish result).run answer v = .ok (result.map some, v') := by
  cases request with
  | resolve c path resolution key parameters =>
    simp only [visit?] at hvisit
    split at hvisit
    · cases hvisit
    · next hfresh =>
      split at hvisit
      · next stored found hlocate =>
        obtain ⟨hstored, hcontext, -⟩ := Stored.visit?_eq_some hvisit
        have hacts := Resolution.locate_acts (V := V) (E := E) resolution key c
        have hyields : (Resolution.locate resolution key c : Task V E _).Yields .lax _ [] :=
          Resolution.locate_yields Conduct.lawful_lax c
        have hmeets := hyields.meets hacts (w := w.emit resolution.logger (.lookup key)) trivial (Call.answer 0) fun _ => True
        obtain ⟨-, -, hcells, -⟩ := hmeets.of_ok hlocate
        refine ⟨found, Resolution.deliver resolution, ?_, hcells.trans (w.emit_cells _ _), fun answer => ?_, fun result v => ?_⟩
        · rw [hstored, hcontext]
          exact hvisit
        · obtain ⟨located, u, hlocated⟩ := hacts.exists_run (w.emit resolution.logger (.lookup key))
          obtain ⟨rfl, rfl⟩ := Prod.mk.inj (Except.ok.inj ((hlocated (Call.answer 0)).symm.trans hlocate))
          simp only [body, Resolution.resolve, Task.run_emit, if_neg hfresh]
          rw [hstored, hcontext]
          exact Task.run_bind_of_ok (hlocated answer)
        · cases result with
          | ok object => exact ⟨v, fun _ => rfl⟩
          | error e => exact ⟨_, fun _ => rfl⟩
      · cases hvisit
  | obtain owner key context =>
    obtain ⟨binding, hbinding, hvisit⟩ := Option.bind_eq_some_iff.mp hvisit
    obtain ⟨hstored, hcontext, -⟩ := Stored.visit?_eq_some hvisit
    refine ⟨w, fun result => .done (result.map some), ?_, rfl, fun answer => ?_, fun result v => ⟨v, fun _ => rfl⟩⟩
    · rw [hstored, hcontext]
      exact hvisit
    · simp only [body, Task.run_read, hbinding]
      rw [hstored, hcontext]
      refine congrArg (fun rest => (Task.bind _ rest).run _ w) (funext fun result => ?_)
      cases result <;> rfl

/-- A call that runs a definition is replied to with what the definition comes to. -/
theorem Call.body_run [Hashed V] {visit : Visit V E} {result : Except ResolveError (Object V)} {made : World V E}
    (hvisit : request.visit? w = some visit)
    (hcreate : (visit.stored.create visit.context).run answer visit.world = .ok (result, made)) :
    ∃ w', request.body.run answer w = .ok (result.map some, w') := by
  obtain ⟨u, finish, hobtains, -, hbody, hfinish⟩ := body_of_visit? hvisit
  obtain ⟨between, hobtain⟩ := Stored.obtain_run hobtains hcreate
  obtain ⟨w', hlast⟩ := hfinish result between
  rw [hbody, Task.run_bind_of_ok hobtain]
  exact ⟨w', hlast answer⟩

/-- A call whose definition comes to an outcome is replied to with it. -/
theorem Call.answer_of_visit [Hashed V] {depth : Nat} {visit : Visit V E} {outcome : Outcome V} {made : World V E}
    (hvisit : request.visit? w = some visit)
    (hrun : ((visit.stored.binding.definition visit.context).toTask visit.context).run (Call.answer depth) visit.world =
      .ok (outcome, made)) :
    ∃ w', Call.answer (depth + 1) request w =
      .ok ((outcome.mapError DefinitionError.toResolveError).map some, w') :=
  Call.body_run hvisit (Stored.create_run hrun)

end Runs

/-! ### Failures of providers -/

section Providers

variable {answer : Call V → World V E → Run V E (Reply V)} {context : Context V} {w w₁ w₂ : World V E}
  {message : String}

/-- A provider that fails is the definition's failure. -/
theorem Definition.ofProvider_failed (type : TypeId) {dependencies : Dependency V E α}
    {provider : α → Action V E (Except String V)} {a : α}
    (hobtained : (dependencies context).ComesTo answer context w (.ok a) w₁)
    (hfailed : (provider a).ComesTo answer context w₁ (.error message) w₂) :
    ((ofProvider type dependencies provider context).toTask context).run answer w =
      .ok (.error (.provider message), w₂) :=
  (hobtained _).trans (hfailed _)

/-- So is a constructor that fails. -/
theorem CatalogEntry.definition_failed (entry : CatalogEntry V E) (key : Key) {supplied : List (SuppliedArgument V)}
    (hsupplied : (supply key entry.descriptor.arguments context).ComesTo answer context w (.ok supplied) w₁)
    (hfailed : (entry.construct ⟨supplied, context.parameters⟩).ComesTo answer context w₁ (.error message) w₂) :
    ((entry.definition key context).toTask context).run answer w = .ok (.error (.provider message), w₂) :=
  (hsupplied _).trans (hfailed _)

/-- Whoever shares a value that has to be made comes to what making it comes to, with one wrapper more if it
cannot be made. -/
theorem CatalogEntry.sharedDefinition_run (entry : CatalogEntry V E) (key : Key) {outcome : Outcome V}
    (hempty : w.cells (.shared entry.number) = .empty)
    (hmade : ((entry.definition key context).toTask context).run answer (w.opened (.shared entry.number) context) =
      .ok (outcome, w₁)) :
    ∃ w', ((entry.sharedDefinition key context).toTask context).run answer w =
      .ok (outcome.mapError fun cause => .dependency cause.toResolveError, w') := by
  have hcreate : (((entry.definition key context).toTask context).bind fun outcome =>
      .done (outcome.mapError DefinitionError.toResolveError)).run answer (w.opened (.shared entry.number) context) =
        .ok (outcome.mapError DefinitionError.toResolveError, w₁) := Task.run_bind_of_ok hmade
  obtain ⟨w', hkept⟩ := Task.keep_run hempty hcreate
  refine ⟨w', (Task.run_bind_of_ok hkept).trans ?_⟩
  cases outcome <;> rfl

/-- Whoever shares a value that is there is given it. -/
theorem CatalogEntry.sharedDefinition_ready (entry : CatalogEntry V E) (key : Key) {object : Object V}
    (hready : w.cells (.shared entry.number) = .ready object) :
    ∃ w', ((entry.sharedDefinition key context).toTask context).run answer w = .ok (.ok object, w') := by
  obtain ⟨w', hkept⟩ := Task.keep_ready hready
  exact ⟨w', (Task.run_bind_of_ok hkept).trans rfl⟩

end Providers

end Injection

import Injection.Proofs.Upkeep
import Injection.Proofs.Accrual
import Injection.Proofs.Propagation

/-!
# Dependencies are requested without parameters

Whoever has a dependency injected has it requested without parameters. So parameters get no further than to the
definition that serves the key they were passed for, be it by way of definitions that forward: below it, every
definition is handed an empty list.
-/

namespace Injection

variable {V E α β : Type}

/-! ### Definitions that inject -/

section Definitions

/-- The program makes requests only in its context and without parameters; it may pass requests on if it is said to. -/
def Program.Injects (passes : Prop) : Program V E → Prop
  | .done _ => True
  | .request _ parameters next => parameters = [] ∧ ∀ reply, (next reply).Injects passes
  | .start _ _ _ _ => False
  | .forward _ _ next => passes ∧ ∀ reply, (next reply).Injects passes
  | .share _ body next => body.Injects passes ∧ ∀ reply, (next reply).Injects passes
  | .make _ _ next => ∀ object, (next object).Injects passes
  | .touch _ next => ∀ before, (next before).Injects passes
  | .report _ next => next.Injects passes
  | .meet _ next => next.Injects passes

/-- The action injects, and leaves the rest to what comes after it. -/
def Action.Injects (passes : Prop) (action : Action V E α) : Prop :=
  ∀ next, (∀ a, (next a).Injects passes) → (action next).Injects passes

/-- The definition of the binding injects in every context. -/
def Binding.Injects (passes : Prop) (binding : Binding V E) : Prop :=
  ∀ context, (binding.definition context).Injects passes

/-- The constructors of a catalog request nothing themselves. -/
def Catalog.Injects (catalog : Catalog V E) : Prop :=
  ∀ entry ∈ catalog.entries, ∀ args, (entry.construct args).Injects False

/-- What a factory makes of bindings that inject injects, and so do those that the catalogs have which it consults. -/
def Synthesis.Injects : Synthesis V E → Prop
  | .answer reply => ∀ binding, reply = .ok (some binding) → binding.Injects True
  | .consult catalog _ _ next =>
    catalog.Injects ∧ ∀ reply, (∀ binding, reply = .ok (some binding) → binding.Injects True) → (next reply).Injects
  | .touch _ next => ∀ before, (next before).Injects

/-- What the component stores injects, and so does whatever its factories make. -/
structure Component.Injects (component : Component V E) : Prop where
  bindings : ∀ binding ∈ component.bindings, binding.Injects True
  factories : ∀ factory ∈ component.config.factories, ∀ key c, (factory key c).Injects

/-- All definitions, stored or yet to be synthesized, obtain their dependencies by injection. -/
def World.Injecting (w : World V E) : Prop :=
  ∀ (c : ComponentId) (component : Component V E), w.components[c]? = some component → component.Injects

end Definitions

section Closure

variable {passes : Prop}

/-- A program that injects still does so where passing requests on is allowed. -/
theorem Program.Injects.mono {passes' : Prop} {program : Program V E} (h : program.Injects passes)
    (hpasses : passes → passes') : program.Injects passes' := by
  induction program with
  | done outcome => trivial
  | request key parameters next ih => exact ⟨h.1, fun reply => ih reply (h.2 reply)⟩
  | start component key parameters next ih => exact h
  | forward owner key next ih => exact ⟨hpasses h.1, fun reply => ih reply (h.2 reply)⟩
  | share entry body next ihbody ih => exact ⟨ihbody h.1, fun reply => ih reply (h.2 reply)⟩
  | make type value next ih => exact fun object => ih object (h object)
  | touch change next ih => exact fun before => ih before (h before)
  | report event next ih => exact ih h
  | meet gate next ih => exact ih h

/-- Programs one after the other inject if each of them does. -/
theorem Program.Injects.andThen {program : Program V E} {f : Outcome V → Program V E} (h : program.Injects passes)
    (hf : ∀ outcome, (f outcome).Injects passes) : (program.andThen f).Injects passes := by
  induction program with
  | done outcome => exact hf outcome
  | request key parameters next ih => exact ⟨h.1, fun reply => ih reply (h.2 reply)⟩
  | start component key parameters next ih => exact h
  | forward owner key next ih => exact ⟨h.1, fun reply => ih reply (h.2 reply)⟩
  | share entry body next _ ih => exact ⟨h.1, fun reply => ih reply (h.2 reply)⟩
  | make type value next ih => exact fun object => ih object (h object)
  | touch change next ih => exact fun before => ih before (h before)
  | report event next ih => exact ih h
  | meet gate next ih => exact ih h

namespace Action

/-- Actions one after the other inject if each of them does. -/
theorem Injects.bind {action : Action V E α} {f : α → Action V E β} (h : action.Injects passes)
    (hf : ∀ a, (f a).Injects passes) : (action >>= f).Injects passes :=
  fun next hnext => h _ fun a => hf a next hnext

/-- Yielding something requests nothing. -/
theorem injects_pure (a : α) : (pure a : Action V E α).Injects passes := fun _ hnext => hnext a

/-- A request without parameters injects. -/
theorem injects_request (key : Key) : (request key [] : Action V E (Reply V)).Injects passes :=
  fun _ hnext => ⟨rfl, hnext⟩

/-- Reporting an event requests nothing. -/
theorem injects_report (event : Event) : (report event : Action V E Unit).Injects passes := fun _ hnext => hnext ()

/-- Making an object requests nothing. -/
theorem injects_make (type : TypeId) (value : V) : (make type value : Action V E (Object V)).Injects passes :=
  fun _ hnext => hnext

/-- The program of an action that injects does so too. -/
theorem Injects.toProgram {action : Action V E (Outcome V)} (h : action.Injects passes) :
    action.toProgram.Injects passes := h _ fun _ => trivial

end Action

/-- A query without parameters injects. -/
theorem Query.inContext_injects {q : Query V} (h : q.parameters = []) :
    (q.inContext : Action V E (Reply V)).Injects passes := by
  unfold Query.inContext
  rw [h]
  refine (Action.injects_request q.key).bind fun reply => ?_
  unfold Query.receive
  split
  · exact (Action.injects_report _).bind fun _ => Action.injects_pure _
  · exact Action.injects_pure _

/-- Supplying arguments injects, whatever the arguments are. -/
theorem CatalogEntry.supply_injects (key : Key) (arguments : List Argument) (context : Context V) :
    (supply key arguments context : Action V E (Except ResolveError (List (SuppliedArgument V)))).Injects passes := by
  induction arguments with
  | nil => exact Action.injects_pure _
  | cons argument rest ih =>
    cases argument with
    | parameter name index =>
      unfold supply
      split
      · exact ih.bind fun _ => Action.injects_pure _
      · exact Action.injects_pure _
    | dependency name type qualifier nullable =>
      refine (Action.injects_request _).bind fun reply => ?_
      cases reply with
      | error e => exact Action.injects_pure _
      | ok value => exact ih.bind fun _ => Action.injects_pure _

/-- Two dependencies are injected if each of them is. -/
theorem Dependency.both_injects {first : Dependency V E α} {second : Dependency V E β} {context : Context V}
    (h : (first context).Injects passes) (h' : (second context).Injects passes) :
    (first.both second context).Injects passes := by
  refine h.bind fun result => ?_
  cases result with
  | error e => exact Action.injects_pure _
  | ok a => exact h'.bind fun _ => Action.injects_pure _

/-- A list of dependencies is injected if each of them is. -/
theorem Dependency.all_injects {dependencies : List (Dependency V E α)} {context : Context V}
    (h : ∀ dependency ∈ dependencies, (dependency context).Injects passes) :
    (Dependency.all dependencies context).Injects passes := by
  induction dependencies with
  | nil => exact Action.injects_pure _
  | cons first rest ih =>
    obtain ⟨hfirst, hrest⟩ := List.forall_mem_cons.mp h
    exact (both_injects hfirst (ih hrest)).bind fun _ => Action.injects_pure _

/-- However dependencies are put together, they are requested without parameters. -/
theorem Dependency.Standard.injects {dependency : Dependency V E α} (h : dependency.Standard) (context : Context V) :
    (dependency context).Injects passes := by
  induction h with
  | inject type | injectNamed type name =>
    exact (Action.injects_report _).bind fun _ => (Query.inContext_injects rfl).bind fun _ => Action.injects_pure _
  | injectOptional type => exact (Action.injects_report _).bind fun _ => Query.inContext_injects rfl
  | param type index =>
    unfold Dependency.param
    split
    · exact Action.injects_pure _
    · exact (Action.injects_report _).bind fun _ => Action.injects_pure _
  | params | context | nothing => exact Action.injects_pure _
  | map f _ ih => exact ih.bind fun _ => Action.injects_pure _
  | both _ _ ih ih' => exact both_injects ih ih'
  | all _ ih => exact all_injects ih
  | supply key arguments => exact CatalogEntry.supply_injects key arguments context

/-- A definition injects if its dependencies do and whatever is done with them does. -/
theorem Definition.withDependencies_injects {dependencies : Dependency V E α} {finish : α → Action V E (Outcome V)}
    {context : Context V} (h : (dependencies context).Injects passes) (hfinish : ∀ a, (finish a).Injects passes) :
    (Definition.withDependencies dependencies finish context).Injects passes := by
  refine (h.bind fun result => ?_).toProgram
  cases result with
  | error e => exact Action.injects_pure _
  | ok a => exact hfinish a

/-- A provider function that requests nothing itself makes a binding that injects. -/
theorem Binding.ofProvider_injects {dependencies : Dependency V E α} {provider : α → Action V E (Except String V)}
    (h : dependencies.Standard) (hprovider : ∀ a, (provider a).Injects passes) (type : TypeInfo) (kind : Kind) :
    (Binding.ofProvider type kind dependencies provider).Injects passes := by
  intro context
  refine Definition.withDependencies_injects (h.injects context) fun a => (hprovider a).bind fun made => ?_
  cases made with
  | error message => exact Action.injects_pure _
  | ok value =>
    exact (Action.injects_report _).bind fun _ => (Action.injects_make _ _).bind fun _ => Action.injects_pure _

/-- What is decorated injects if what decorates it does. -/
theorem Binding.Injects.decorate {binding : Binding V E} (h : binding.Injects passes)
    {f : Object V → Action V E V} (hf : ∀ object, (f object).Injects passes) (type : TypeInfo) :
    (binding.decorate type f).Injects passes := by
  refine fun context => (h context).andThen fun outcome => ?_
  cases outcome with
  | error e => trivial
  | ok object =>
    dsimp only
    split
    · exact ((hf object).bind fun _ => (Action.injects_make _ _).bind fun _ => Action.injects_pure _).toProgram
    · trivial

/-- The definition of an entry injects whatever its arguments are, if its constructor does. -/
theorem CatalogEntry.definition_injects {entry : CatalogEntry V E} (h : ∀ args, (entry.construct args).Injects passes)
    (key : Key) (context : Context V) : (entry.definition key context).Injects passes := by
  refine Definition.withDependencies_injects (supply_injects _ _ context) fun supplied => (h _).bind fun made => ?_
  cases made with
  | error message => exact Action.injects_pure _
  | ok pair => exact (Action.injects_make _ _).bind fun _ => Action.injects_pure _

/-- Sharing the value of an entry changes nothing about that. -/
theorem CatalogEntry.sharedDefinition_injects {entry : CatalogEntry V E}
    (h : ∀ args, (entry.construct args).Injects passes) (key : Key) (context : Context V) :
    (entry.sharedDefinition key context).Injects passes := by
  refine ⟨definition_injects h key context, fun reply => ?_⟩
  cases reply <;> trivial

/-- A binding that forwards injects, passing on the parameters that it is requested with. -/
theorem Stored.forwarding_injects (stored : Stored V E) : stored.forwarding.Injects True := by
  refine fun context => ⟨trivial, fun reply => ?_⟩
  cases reply <;> trivial

end Closure

/-! ### Worlds whose definitions inject -/

section Worlds

/-- The conduct by which only what injects is stored. -/
def Conduct.injecting : Conduct V E :=
  .free (fun components => ∀ (c : ComponentId) (component : Component V E),
    components[c]? = some component → component.Injects) fun _ binding => binding.Injects True

/-- A catalog whose constructors request nothing supplies bindings that inject. -/
theorem Catalog.Injects.supplies {catalog : Catalog V E} (h : catalog.Injects) (key : Key) (c : ComponentId) :
    catalog.Supplies .injecting key c fun binding => binding.Injects True := by
  intro entry hentry _
  have hconstruct := h entry (List.mem_of_find?_eq_some hentry)
  have hdefinition (context : Context V) : (entry.definition key context).Injects True :=
    (entry.definition_injects hconstruct key context).mono False.elim
  split
  · exact fun context => (entry.sharedDefinition_injects hconstruct key context).mono False.elim
  · split
    · exact hdefinition
    · intro w _
      split
      · exact hdefinition
      · exact fun owner _ => ⟨hdefinition, fun binding _ _ => Stored.forwarding_injects _⟩

/-- A factory whose program injects supplies bindings that inject. -/
theorem Synthesis.Injects.supplies {program : Synthesis V E} (h : program.Injects) (key : Key) (c : ComponentId) :
    program.Supplies .injecting key c := by
  induction program with
  | answer reply => exact fun binding hbinding => h binding hbinding
  | consult catalog asked component next ih =>
    exact ⟨_, h.1.supplies asked component, fun reply hreply => ih reply (h.2 reply hreply)⟩
  | touch change next ih => exact fun before => ih before (h before)

/-- A catalog injects as a factory if its constructors request nothing. -/
theorem Catalog.Injects.factory {catalog : Catalog V E} (h : catalog.Injects) (key : Key) (c : ComponentId) :
    (catalog.factory key c).Injects := ⟨h, fun _ hreply => hreply⟩

/-- Bindings that inject lead to nothing but bindings that inject. -/
theorem Conduct.lawful_injecting [Hashed V] : (Conduct.injecting : Conduct V E).Lawful := by
  refine Conduct.lawful_free (fun hholds hcomponent hmem => (hholds _ _ hcomponent).bindings _ hmem) ?_
    fun hholds hcomponent hmem => ((hholds _ _ hcomponent).factories _ hmem _ _).supplies _ _
  intro w c binding hw hbinding d component hcomponent
  change (w.memoize c binding).component? d = some component at hcomponent
  rw [World.component?_memoize, Option.map_eq_some_iff] at hcomponent
  obtain ⟨before, hbefore, rfl⟩ := hcomponent
  have hinjects := hw d before hbefore
  split
  · refine ⟨fun other hother => ?_, hinjects.factories⟩
    rcases List.mem_append.mp hother with hold | hnew
    · exact hinjects.bindings other hold
    · obtain rfl := List.mem_singleton.mp hnew
      exact hbinding
  · exact hinjects

variable [Hashed V] {w w' : World V E}

/-- Locating a key stores only what injects. -/
theorem World.steady_injecting : World.Steady (World.Injecting : World V E → Prop) where
  of_components h hsame := fun c component hcomponent => h c component (hsame ▸ hcomponent)
  locate {resolution key c answer w w' located} h hrun := by
    have hyields : (Resolution.locate resolution key c).Yields (.injecting : Conduct V E) _ [] :=
      Resolution.locate_yields Conduct.lawful_injecting c
    exact ((hyields.meets (Resolution.locate_acts resolution key c) h answer fun _ => True).of_ok hrun).2.1

end Worlds

/-! ### Where parameters get -/

section Calls

/-- In a context on behalf of a query, there are the query's parameters if its own key is under construction alone,
and none if anything is that it depends on. -/
def Context.Discreet (q : Query V) (context : Context V) : Prop :=
  context.path = [q.key] ∧ context.parameters = q.parameters ∨ 1 < context.path.length ∧ context.parameters = []

/-- The call is the query's own and carries its parameters, or it is made on its behalf and carries none, except that
the query's own key may be passed on. -/
def Call.Discreet (q : Query V) : Call V → Prop
  | .resolve _ path _ key parameters =>
    path = [] ∧ key = q.key ∧ parameters = q.parameters ∨ path ≠ [] ∧ parameters = []
  | .obtain _ _ context => context.Discreet q

/-- The conduct that restricts only which calls are made. -/
def Conduct.calling (calls : Call V → Prop) : Conduct V E :=
  ⟨fun _ => True, fun _ _ => True, fun _ _ _ => True, fun _ => calls⟩

/-- A task that keeps such rules makes only those calls. -/
theorem Task.Follows.calls {calls : Call V → Prop} {ends : α → List Slot → Prop} {task : Task V E α}
    {making : List Slot} {answer : Call V → World V E → Run V E (Reply V)} {w v : World V E} {request : Call V}
    (h : task.Follows (.calling calls) ends making) (hmakes : task.Makes answer w request v) : calls request := by
  induction task generalizing making w with
  | done result => cases hmakes
  | act change next ih => exact ih w (h w trivial).2 hmakes
  | acquire slot resolution next ih =>
    obtain ⟨-, hready, hcycle, hgranted⟩ := h
    unfold Makes at hmakes
    rw [journal_acquire] at hmakes
    cases hacquire : w.acquire? slot resolution with
    | none => simp [hacquire] at hmakes
    | some pair =>
      rw [hacquire] at hmakes
      have hnext := Grant.called_mem_noted_append.mp hmakes
      match pair, hnext with
      | (.ready object, _), hnext => exact ih _ (hready object) hnext
      | (.cycle, _), hnext => exact ih _ hcycle hnext
      | (.granted, _), hnext => exact ih _ hgranted hnext
  | settle slot cell next ih =>
    obtain ⟨-, -, rest, -, hnext⟩ := h
    exact ih hnext ((List.mem_cons.mp hmakes).resolve_left (by simp))
  | notify slot next ih => exact ih h hmakes
  | call made next ih =>
    rcases makes_call hmakes with ⟨rfl, rfl⟩ | ⟨reply, w', -, hlater⟩
    · exact h.1
    · exact ih reply (h.2 reply) hlater
  | meet gate next ih => exact ih h hmakes

/-- A program that injects, in a discreet context, makes discreet calls. -/
theorem Program.Injects.fits {q : Query V} {program : Program V E} (h : program.Injects True) {context : Context V}
    (hcontext : context.Discreet q) (making : List Slot) :
    program.Fits (.calling (Call.Discreet q)) context making := by
  -- A context always has a path, so what is requested in it is never taken for the query's own call.
  have hpath : context.path ≠ [] := by
    intro hpath
    rcases hcontext with ⟨hself, -⟩ | ⟨hlonger, -⟩
    · simp [hpath] at hself
    · simp [hpath] at hlonger
  induction program generalizing making with
  | done outcome => trivial
  | request key parameters next ih => exact ⟨.inr ⟨hpath, h.1⟩, fun reply => ih reply (h.2 reply) _⟩
  | start component key parameters next ih => exact h.elim
  | forward owner key next ih => exact ⟨hcontext, fun reply => ih reply (h.2 reply) _⟩
  | share entry body next ihbody ih => exact ⟨trivial, ihbody h.1 _, fun reply => ih reply (h.2 reply) _⟩
  | make type value next ih => exact fun object => ih object (h object) _
  | touch change next ih => exact fun before => ih before (h before) _
  | report event next ih => exact ih h _
  | meet gate next ih => exact ih h _

variable [Hashed V] {q : Query V} {request : Call V} {visit : Visit V E} {w v : World V E} {depth : Nat}

/-- The definition that a discreet call runs is handed a discreet context. -/
theorem Call.Discreet.context (h : request.Discreet q) (hvisit : request.visit? v = some visit) :
    visit.context.Discreet q := by
  cases Visit.answers_of_visit? hvisit with
  | located _ _ hcontext _ =>
    rw [hcontext]
    rcases h with ⟨rfl, rfl, rfl⟩ | ⟨hpath, rfl⟩
    · exact .inl ⟨rfl, rfl⟩
    · refine .inr ⟨?_, rfl⟩
      have hlength := List.length_pos_of_ne_nil hpath
      simp only [List.length_append, List.length_singleton]
      omega
  | named _ _ hcontext _ => exact hcontext ▸ h

/-- If a property outlasts locating, it holds where a definition is run. -/
theorem World.Steady.of_visit {P : World V E → Prop} (hP : World.Steady P) (h : P v)
    (hvisit : request.visit? v = some visit) : P visit.world := by
  cases Visit.answers_of_visit? hvisit with
  | located _ hlocate _ hcomponents =>
    have hfound := hP.locate (hP.of_components h (v.emit_components _ _)) hlocate
    exact hP.of_components hfound hcomponents
  | named _ _ _ hcomponents => exact hP.of_components h hcomponents

/-- Every definition that is run injects. -/
theorem World.Injecting.of_visit (hv : v.Injecting) (hvisit : request.visit? v = some visit) :
    visit.stored.binding.Injects True := by
  obtain ⟨-, hstored⟩ := Call.visit?_stored hvisit
  obtain ⟨component, hcomponent, hmem, -⟩ := World.mem_of_binding? hstored
  exact (World.steady_injecting.of_visit hv hvisit _ component hcomponent).bindings _ hmem

/-- The calls that a definition makes are discreet. -/
theorem World.Injecting.makes (hv : v.Injecting) (hvisit : request.visit? v = some visit) (h : request.Discreet q)
    {made : Call V} {u : World V E} (hmakes : visit.Makes depth made u) : made.Discreet q := by
  have hfits := (hv.of_visit hvisit visit.context).fits (h.context hvisit) []
  have hkeeps : (visit.stored.create visit.context).Keeps (.calling (Call.Discreet q)) [] :=
    (Program.toTask_keeps hfits).bind fun _ _ => .done trivial
  exact hkeeps.calls hmakes

/-- So all calls are discreet that are taken up on behalf of a query, however deep they are nested. -/
theorem Call.Discreet.of_called {outer : Call V} {u : World V E} (h : outer.Discreet q) (hu : u.Injecting)
    (hcalled : .called request v ∈ Call.journal depth outer u) : request.Discreet q := by
  induction depth generalizing outer u with
  | zero => cases hcalled
  | succ depth ih =>
    rcases List.mem_cons.mp hcalled with hsame | hwithin
    · obtain ⟨rfl, rfl⟩ := Moment.called.inj hsame
      exact h
    · have hbody : outer.body.journal (Call.answer depth) (Call.journal depth) u = _ := Call.body_journal outer u
      cases hvisit : outer.visit? u with
      | none => simp [hbody, hvisit] at hwithin
      | some visit =>
        rw [hvisit] at hbody
        rw [hbody] at hwithin
        obtain ⟨middle, t, hmakes, hmiddle, hsubset⟩ := Task.called_mem (Visit.called_creation hwithin)
        -- The call in the middle is taken up where all definitions still inject, since it is in the journal as well.
        have hcalled' : .called middle t ∈ Call.journal (depth + 1) outer u := by
          refine List.mem_cons_of_mem _ (hbody ▸ visit.creation_subset _ _ (hsubset ?_))
          cases depth with
          | zero => cases hmiddle
          | succ depth => exact List.mem_cons_self
        exact ih (hu.makes hvisit h hmakes) (Call.steady_of_called World.steady_injecting hu hcalled') hmiddle

end Calls

end Injection

import Injection.Proofs.Accrual

/-!
# Forwarding is transparent

A component may store, in place of a binding of its own, one that forwards to what another component stores under
the same key. A request there comes to what it comes to at the other component: to the same object, or to the same
error with one wrapper more; the same definitions are run in the same contexts, and the world is left in the same
state. If the other component is not there any more, the request fails and nothing else happens.
-/

namespace Injection

variable {V E : Type}

section Definitions

/-- The binding passes requests on to what a component stores under a key. -/
def Binding.Forwards (binding : Binding V E) (stored : Stored V E) : Prop :=
  binding.kind = .factory ∧ binding.definition = stored.forwarding.definition

/-- The second run halts as the first does, or it ends in the same state with the same reply, an error being wrapped
once more. -/
def Run.Wraps : Run V E (Reply V) → Run V E (Reply V) → Prop
  | .ok (reply, w), .ok (reply', w') => reply' = reply.mapError .dependency ∧ w.Coincides w'
  | .error halt, .error halt' => halt' = halt
  | _, _ => False

/-- A definition that is run. -/
inductive Activity (V E : Type) where
  /-- The definition of a stored binding, handed a context. -/
  | definition (stored : Stored V E) (context : Context V)
  /-- The definition of a catalog entry, for the value that all who use the entry share. -/
  | sharing (entry : EntryId)

/-- What is run in a visit, apart from what it calls. -/
def Visit.activity (visit : Visit V E) : Activity V E := .definition visit.stored visit.context

variable [Hashed V]

/-- The definition that is run from a moment on. -/
def Moment.activity? : Moment V E → Option (Activity V E)
  | .called request w => (request.visit? w).map Visit.activity
  | .begun (.shared entry) => some (.sharing entry)
  | .begun _ | .ended _ _ => none

/-- The definitions that are run while a nested call is answered, in order. -/
def Call.runs (depth : Nat) (request : Call V) (w : World V E) : List (Activity V E) :=
  (Call.journal depth request w).filterMap Moment.activity?

/-- The definitions that are run to obtain the value of a stored binding, its own one included. -/
def Stored.runs (stored : Stored V E) (depth : Nat) (context : Context V) (w : World V E) :
    List (Activity V E) :=
  ((stored.visit? context w).map Visit.activity).toList ++
    ((stored.obtain context).journal (Call.answer depth) (Call.journal depth) w).filterMap Moment.activity?

variable (w : World V E) (c owner : ComponentId) (key : Key) (forwarder : Binding V E)

/-- A request for a key at a component comes to what it comes to at the owner of a binding. One level of nesting more
is needed to pass it on. -/
structure World.Transparent : Prop where
  /-- There is the same reply, but for one wrapper around an error, and the same state of the world. -/
  replies : ∀ {path : List Key} (resolution : Resolution) (parameters : Parameters V) (depth : Nat),
    (∀ visited ∈ path, visited.site ≠ key.site) →
      (Call.answer (depth + 1) (.resolve owner path resolution key parameters) w).Wraps
        (Call.answer (depth + 2) (.resolve c path resolution key parameters) w)
  /-- After the definition that forwards, the same definitions are run in the same contexts. -/
  runs : ∀ {path : List Key} (resolution : Resolution) (parameters : Parameters V) (depth : Nat),
    (∀ visited ∈ path, visited.site ≠ key.site) →
      Call.runs (depth + 2) (.resolve c path resolution key parameters) w =
        .definition ⟨c, forwarder⟩ ⟨c, key, parameters, path ++ [key], resolution⟩ ::
          Call.runs (depth + 1) (.resolve owner path resolution key parameters) w

/-- A request for a key at a component fails, whatever values are kept elsewhere. -/
structure World.CutOff : Prop where
  /-- The root cause is that the key is not resolved, and the state of the world is as before. -/
  fails : ∀ {path : List Key} (resolution : Resolution) (parameters : Parameters V) (depth : Nat),
    (∀ visited ∈ path, visited.site ≠ key.site) → ∃ e missing w',
      Call.answer (depth + 1) (.resolve c path resolution key parameters) w = .ok (.error e, w') ∧
        e.rootCause = .unresolved missing ∧ missing.identity = key.identity ∧ w.Coincides w'
  /-- No definition is run but the one that forwards. -/
  runs : ∀ {path : List Key} (resolution : Resolution) (parameters : Parameters V) (depth : Nat),
    (∀ visited ∈ path, visited.site ≠ key.site) →
      Call.runs (depth + 1) (.resolve c path resolution key parameters) w =
        [.definition ⟨c, forwarder⟩ ⟨c, key, parameters, path ++ [key], resolution⟩]

end Definitions

/-! ### What is run does not depend on reports -/

section Reports

variable [Hashed V] {w w' : World V E}

/-- Which definition the value of a binding calls for, and in which context, does not depend on reports. -/
theorem Stored.activity_coincides (stored : Stored V E) (context : Context V) (hw : w.Coincides w') :
    (stored.visit? context w').map Visit.activity = (stored.visit? context w).map Visit.activity := by
  have hopening (slot : Slot) (v : World V E) (hcells : v.cells = w.cells) :
      (stored.opening? context slot v).map Visit.activity = (stored.opening? context slot w).map Visit.activity := by
    unfold opening?
    rw [hcells]
    cases w.cells slot <;> rfl
  unfold visit?
  split
  · rfl
  · exact hopening _ _ hw.cells
  · split
    · rfl
    · exact (hopening _ _ (by simp [hw.cells])).trans (hopening _ _ (by simp)).symm

/-- Nor does which definition a call runs. -/
theorem Call.activity_coincides (request : Call V) (hw : w.Coincides w') :
    (request.visit? w').map Visit.activity = (request.visit? w).map Visit.activity := by
  cases request with
  | resolve c path resolution key parameters =>
    have hasked := ((w.coincides_emit resolution.logger (.lookup key)).symm.trans hw).trans
      (w'.coincides_emit resolution.logger (.lookup key))
    obtain ⟨located, found, hlocate⟩ := (Resolution.locate_acts (V := V) (E := E) resolution key c).exists_run
      (w.emit resolution.logger (.lookup key))
    obtain ⟨found', hlocate', hfound⟩ := Resolution.locate_concurs resolution key c hasked (hlocate _)
    simp only [visit?, World.run, hlocate] at hlocate' ⊢
    rw [hlocate']
    split
    · rfl
    · rcases located with e | _ | stored
      · rfl
      · rfl
      · exact stored.activity_coincides _ hfound
  | obtain owner key context =>
    simp only [visit?, World.binding?_of_components hw.components]
    cases w.binding? owner key.identity with
    | none => rfl
    | some binding => exact Stored.activity_coincides _ _ hw

/-- Moments that concur tell of the same definition. -/
theorem Moment.Concurs.activity?_eq {moment moment' : Moment V E} (h : moment.Concurs moment') :
    moment'.activity? = moment.activity? := by
  match moment, moment', h with
  | .called request w, .called _ w', ⟨rfl, hw⟩ => exact request.activity_coincides hw
  | .begun slot, _, rfl => rfl
  | .ended slot cell, _, rfl => rfl

/-- Journals that concur tell of the same definitions in the same order. -/
theorem Moment.filterMap_activity? {journal journal' : List (Moment V E)}
    (h : List.Forall₂ Moment.Concurs journal journal') :
    journal'.filterMap activity? = journal.filterMap activity? := by
  induction h with
  | nil => rfl
  | cons hmoment _ ih => rw [List.filterMap_cons, List.filterMap_cons, hmoment.activity?_eq, ih]

/-- The definitions that are run for the value of a binding do not depend on reports. -/
theorem Stored.runs_coincides (stored : Stored V E) (depth : Nat) (context : Context V) (hw : w.Coincides w') :
    stored.runs depth context w' = stored.runs depth context w := by
  have hjournal := (stored.obtain_indifferent context).journal (Call.answer_concurs depth)
    (Call.journal_concurs depth) hw
  unfold runs
  rw [stored.activity_coincides context hw, Moment.filterMap_activity? hjournal]

end Reports

/-! ### Calls that find what is stored -/

section Calls

variable [Hashed V] {c owner : ComponentId} {path : List Key} {resolution : Resolution} {key : Key}
  {parameters : Parameters V} {context : Context V} {binding : Binding V E} {w u : World V E}

omit [Hashed V] in
/-- A required key is located at what the component stores under it. -/
theorem Resolution.locate_stored (hrequired : key.nullable = false) (h : w.binding? c key.identity = some binding)
    (resolution : Resolution) : ∃ u, (∀ answer, (locate resolution key c).run answer
      (w.emit resolution.logger (.lookup key)) = .ok (.ok (some ⟨c, binding⟩), u)) ∧ w.Coincides u := by
  have hasked := w.coincides_emit resolution.logger (.lookup key)
  have hserving : (w.emit resolution.logger (.lookup key)).serving? c key = some binding := by
    rw [World.serving?_eq, if_neg (by simp [hrequired]), World.binding?_of_components hasked.components, h]
  obtain ⟨u, hlocate, hu⟩ := locate_of_found (World.found?_of_serving? hserving) resolution
  exact ⟨u, hlocate, hasked.trans hu⟩

/-- A call runs the definition of its visit, if it makes one, and then those that its body tells of. -/
theorem Call.runs_succ (depth : Nat) (request : Call V) (w : World V E) : runs (depth + 1) request w =
    ((request.visit? w).map Visit.activity).toList ++
      (request.body.journal (Call.answer depth) (Call.journal depth) w).filterMap Moment.activity? := by
  change List.filterMap Moment.activity? (.called request w :: _) = _
  cases hvisit : request.visit? w <;> simp [Moment.activity?, hvisit]

section Resolve

variable {stored : Stored V E} (hfresh : ∀ visited ∈ path, visited.site ≠ key.site)
  (hlocate : ∀ answer, (Resolution.locate resolution key c).run answer (w.emit resolution.logger (.lookup key)) =
    .ok (.ok (some stored), u))
include hfresh hlocate

/-- A request that locates its key runs what obtaining the value there does. -/
theorem Call.runs_resolve (depth : Nat) : runs (depth + 1) (.resolve c path resolution key parameters) w =
    stored.runs depth ⟨stored.owner, key, parameters, path ++ [key], resolution⟩ u := by
  have hnot : ¬ (path.any fun visited => visited.site = key.site) := by simpa using hfresh
  have hvisit : (Call.resolve c path resolution key parameters).visit? w =
      stored.visit? ⟨stored.owner, key, parameters, path ++ [key], resolution⟩ u := by
    simp only [visit?, World.run, if_neg hnot, hlocate]
  have hjournal : Call.journal (depth + 1) (.resolve c path resolution key parameters) w = _ :=
    Call.journal_resolve hfresh hlocate depth
  rw [runs_succ, hvisit, List.tail_eq_of_cons_eq hjournal]
  unfold Stored.runs Resolution.conclude
  rw [Task.journal_bind_acts fun result => ?_]
  cases result with
  | ok object => trivial
  | error e => exact (Task.emit_acts _ _).bind fun _ => trivial

end Resolve

section Obtain

variable (h : w.binding? owner key.identity = some binding)
include h

/-- A call for the value of a stored binding is answered with what obtaining it comes to. -/
theorem Call.answer_obtain (depth : Nat) : Call.answer (depth + 1) (.obtain owner key context) w =
    ((Stored.obtain ⟨owner, binding⟩ context).bind fun result =>
      .done (result.map some)).run (Call.answer depth) w := by
  change (Call.obtain owner key context).body.run (Call.answer depth) w = _
  unfold body
  rw [Task.run_read, h]
  refine congrArg (fun task => Task.run (Call.answer depth) task w) (congrArg (Task.bind _) (funext fun result => ?_))
  cases result <;> rfl

/-- A call for the value of a stored binding runs what obtaining the value runs. -/
theorem Call.runs_obtain (depth : Nat) : runs (depth + 1) (.obtain owner key context) w =
    Stored.runs ⟨owner, binding⟩ depth context w := by
  have hvisit : (Call.obtain owner key context).visit? w = Stored.visit? ⟨owner, binding⟩ context w := by
    simp only [visit?, h, Option.bind_some]
  rw [runs_succ, hvisit]
  unfold Stored.runs body
  rw [Task.journal_read, h]
  refine congrArg (fun journal => _ ++ List.filterMap Moment.activity? journal) ?_
  exact Task.journal_bind_acts fun result => by cases result <;> trivial

end Obtain

end Calls

/-! ### Passing a request on -/

section Passing

variable [Hashed V] {w u : World V E} {forwarder stored : Stored V E} {binding : Binding V E} {context : Context V}

/-- What forwards obtains the value of the other binding by a call, in the context of its owner. -/
theorem Binding.Forwards.obtain_eq (h : forwarder.binding.Forwards stored) : forwarder.obtain context =
    .act id fun w =>
      if w.isAlive stored.owner then
        .call (.obtain stored.owner stored.binding.key { context with component := stored.owner }) fun reply =>
          .done ((Dependency.present stored.binding.key reply).mapError .dependency)
      else .done (.error (.dependency (.unresolved stored.binding.key))) := by
  unfold Stored.obtain
  simp only [h.1]
  unfold Stored.create
  rw [h.2]
  refine congrArg (Task.act id) (funext fun w => ?_)
  dsimp only
  split
  · refine congrArg (Task.call _) (funext fun reply => ?_)
    dsimp only
    generalize Dependency.present stored.binding.key reply = given
    cases given <;> rfl
  · rfl

/-- What forwards is visited in the world as it is, for nothing is kept of it. -/
theorem Binding.Forwards.visit?_eq (h : forwarder.binding.Forwards stored) :
    forwarder.visit? context w = some ⟨forwarder, context, w⟩ := by
  unfold Stored.visit?
  simp only [h.1]

section Alive

variable (h : forwarder.binding.Forwards stored) (halive : w.isAlive stored.owner = true)
  (hbinding : w.binding? stored.owner stored.binding.key.identity = some binding) (depth : Nat)
include h halive hbinding

/-- As long as the owner is alive, what forwards comes to what obtaining the other binding's value comes to. -/
theorem Binding.Forwards.obtain_run : (forwarder.obtain context).run (Call.answer (depth + 1)) w =
    ((Stored.obtain ⟨stored.owner, binding⟩ { context with component := stored.owner }).bind
      fun result => .done (result.mapError .dependency)).run (Call.answer depth) w := by
  rw [h.obtain_eq, Task.run]
  dsimp only [id]
  rw [if_pos halive, Task.run, Call.answer_obtain hbinding, Task.run_bind, Task.run_bind]
  generalize (Stored.obtain _ _).run (Call.answer depth) w = made
  rcases made with halt | ⟨e | object, v⟩ <;> rfl

/-- So what is delivered is the same, but that an error is wrapped, whatever has been reported before. -/
theorem Binding.Forwards.deliver_wraps (hu : u.Coincides w) (context : Context V) (resolution : Resolution) :
    (((Stored.obtain ⟨stored.owner, binding⟩ { context with component := stored.owner }).bind
      (Resolution.deliver resolution)).run (Call.answer depth) u).Wraps
        (((forwarder.obtain context).bind (Resolution.deliver resolution)).run (Call.answer (depth + 1)) w) := by
  have hconcurs := (Stored.obtain_indifferent ⟨stored.owner, binding⟩
    { context with component := stored.owner }).run (Call.answer_concurs depth) hu
  rw [Task.run_bind, Task.run_bind, h.obtain_run halive hbinding, Task.run_bind]
  generalize (Stored.obtain _ _).run (Call.answer depth) u = run at hconcurs ⊢
  rcases run with halt | ⟨result, made⟩
  · rw [hconcurs.of_error rfl]
    exact rfl
  · obtain ⟨made', hmade', hcoincides⟩ := hconcurs.of_ok rfl
    rw [hmade']
    cases result with
    | ok object => exact ⟨rfl, hcoincides⟩
    | error e =>
      exact ⟨rfl, ((made.coincides_emit _ _).symm.trans hcoincides).trans (made'.coincides_emit _ _)⟩

/-- And it runs what obtaining that value does. -/
theorem Binding.Forwards.runs_eq : forwarder.runs (depth + 1) context w = .definition forwarder context ::
    Stored.runs ⟨stored.owner, binding⟩ depth { context with component := stored.owner } w := by
  rw [← Call.runs_obtain hbinding, Stored.runs, h.visit?_eq, h.obtain_eq, Task.journal]
  dsimp only [id]
  rw [if_pos halive, Task.journal]
  refine congrArg (List.cons _) (congrArg (List.filterMap _) ?_)
  split <;> exact List.append_nil _

end Alive

section Dropped

variable (h : forwarder.binding.Forwards stored) (hdropped : w.isAlive stored.owner = false)
include h hdropped

/-- Once the owner is dropped, what forwards fails at once. -/
theorem Binding.Forwards.obtain_run_of_dropped (answer : Call V → World V E → Run V E (Reply V)) :
    (forwarder.obtain context).run answer w = .ok (.error (.dependency (.unresolved stored.binding.key)), w) := by
  rw [h.obtain_eq, Task.run]
  simp [hdropped, Task.run]

/-- Once the owner is dropped, only the definition that forwards is run. -/
theorem Binding.Forwards.runs_of_dropped (depth : Nat) :
    forwarder.runs depth context w = [.definition forwarder context] := by
  rw [Stored.runs, h.visit?_eq, h.obtain_eq, Task.journal]
  simp [hdropped, Task.journal, Visit.activity]

end Dropped

end Passing

/-! ### Requests for a key that is forwarded -/

section Requests

variable [Hashed V] {w : World V E} {c : ComponentId} {key : Key} {forwarder : Binding V E} {stored : Stored V E}
  (hrequired : key.nullable = false) (hstored : w.binding? c key.identity = some forwarder)
  (h : forwarder.Forwards stored) (hkey : stored.binding.key.identity = key.identity)
include hrequired hstored h hkey

/-- As long as the owner of the other binding is alive, nothing but a wrapper tells a request from one at the owner. -/
theorem World.transparent {binding : Binding V E} (hbinding : w.binding? stored.owner key.identity = some binding)
    (halive : w.isAlive stored.owner = true) : w.Transparent c stored.owner key forwarder := by
  have hlocated (resolution : Resolution) : ∃ u u', u.Coincides u' ∧
      (∀ answer, (Resolution.locate resolution key stored.owner).run answer (w.emit resolution.logger (.lookup key)) =
        .ok (.ok (some ⟨stored.owner, binding⟩), u)) ∧
      (∀ answer, (Resolution.locate resolution key c).run answer (w.emit resolution.logger (.lookup key)) =
        .ok (.ok (some ⟨c, forwarder⟩), u')) ∧
      u'.isAlive stored.owner = true ∧ u'.binding? stored.owner stored.binding.key.identity = some binding := by
    obtain ⟨u, hlocate, hu⟩ := Resolution.locate_stored hrequired hbinding resolution
    obtain ⟨u', hlocate', hu'⟩ := Resolution.locate_stored hrequired hstored resolution
    refine ⟨u, u', hu.symm.trans hu', hlocate, hlocate', ?_, ?_⟩
    · exact ((World.Grows.of_components hu'.components).alive _).trans halive
    · rw [hkey, World.binding?_of_components hu'.components, hbinding]
  have hforwards : Binding.Forwards (Stored.binding ⟨c, forwarder⟩) stored := h
  constructor
  · intro path resolution parameters depth hfresh
    obtain ⟨u, u', hu, hlocate, hlocate', halive', hbinding'⟩ := hlocated resolution
    rw [Call.answer_resolve hfresh hlocate, Call.answer_resolve hfresh hlocate']
    exact hforwards.deliver_wraps halive' hbinding' depth hu ⟨c, key, parameters, path ++ [key], resolution⟩ resolution
  · intro path resolution parameters depth hfresh
    obtain ⟨u, u', hu, hlocate, hlocate', halive', hbinding'⟩ := hlocated resolution
    rw [Call.runs_resolve hfresh hlocate, Call.runs_resolve hfresh hlocate', hforwards.runs_eq halive' hbinding',
      Stored.runs_coincides _ _ _ hu]

/-- Once the owner is dropped, requests fail, whatever value its cell keeps. -/
theorem World.cutOff (hdropped : w.isAlive stored.owner = false) : w.CutOff c key forwarder := by
  have hlocated (resolution : Resolution) : ∃ u, w.Coincides u ∧ u.isAlive stored.owner = false ∧
      ∀ answer, (Resolution.locate resolution key c).run answer (w.emit resolution.logger (.lookup key)) =
        .ok (.ok (some ⟨c, forwarder⟩), u) := by
    obtain ⟨u, hlocate, hu⟩ := Resolution.locate_stored hrequired hstored resolution
    exact ⟨u, hu, ((World.Grows.of_components hu.components).alive _).trans hdropped, hlocate⟩
  have hforwards : Binding.Forwards (Stored.binding ⟨c, forwarder⟩) stored := h
  constructor
  · intro path resolution parameters depth hfresh
    obtain ⟨u, hu, hdropped', hlocate⟩ := hlocated resolution
    refine ⟨.dependency (.unresolved stored.binding.key), stored.binding.key, _, ?_, rfl, hkey,
      hu.trans (u.coincides_emit resolution.logger (.failure (.dependency (.unresolved stored.binding.key))))⟩
    rw [Call.answer_resolve hfresh hlocate]
    exact Task.run_bind_of_ok (hforwards.obtain_run_of_dropped hdropped' _)
  · intro path resolution parameters depth hfresh
    obtain ⟨u, -, hdropped', hlocate⟩ := hlocated resolution
    rw [Call.runs_resolve hfresh hlocate, hforwards.runs_of_dropped hdropped']

end Requests

end Injection

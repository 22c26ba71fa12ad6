import Injection.Proofs.Outcomes

/-!
# What happens during a run

A run comes to a result and a world. What happens in between is noted down in a journal: which nested
calls are taken up, in which world, and which values begin and end to be made. Nothing is added to the
tasks for this; the journal is read off the same steps as the run.

A call does one of two things. Either it is settled by what is stored and kept, and its journal is
empty; or it runs one definition, and its journal is that of the definition: `Call.body_journal`. So the
calls in a journal tell which definitions run, and in which contexts.
-/

namespace Injection

variable {V E α β : Type}

/-- What is noted down of a run. -/
inductive Moment (V E : Type) where
  /-- A nested call is taken up. -/
  | called (request : Call V) (w : World V E)
  /-- A value begins to be made. -/
  | begun (slot : Slot)
  /-- A value is made, or given up. -/
  | ended (slot : Slot) (cell : Cell V)

section Definitions

variable (answer : Call V → World V E → Run V E (Reply V))
  (record : Call V → World V E → List (Moment V E))

/-- What happens while a task runs, up to where it ends or halts. Nested calls are answered by `answer`
and leave behind what `record` says. -/
def Task.journal : Task V E α → World V E → List (Moment V E)
  | .done _, _ => []
  | .act change next, w => (next w).journal (change w)
  | .acquire slot resolution next, w =>
    match w.cells slot with
    | .ready object => (next (.ready object)).journal w
    | .empty => .begun slot :: (next .granted).journal (w.setCell slot (.creating resolution.number))
    | .creating creator => if creator = resolution.number then (next .cycle).journal w else []
  | .settle slot cell next, w => .ended slot cell :: next.journal (w.setCell slot cell)
  | .notify _ next, w => next.journal w
  | .call request next, w =>
    record request w ++
      match answer request w with
      | .ok (reply, w) => (next reply).journal w
      | .error _ => []
  | .meet _ next, w => next.journal w

/-- The task makes a call itself. -/
def Task.Makes (task : Task V E α) (w : World V E) (request : Call V) (v : World V E) : Prop :=
  .called request v ∈ task.journal answer (fun request v => [.called request v]) w

end Definitions

/-- What happens while a nested call is answered, with calls nested at most `depth` deep within it. -/
def Call.journal [Hashed V] : (depth : Nat) → Call V → World V E → List (Moment V E)
  | 0, _, _ => []
  | depth + 1, request, w =>
    .called request w :: request.body.journal (Call.answer depth) (Call.journal depth) w

/-- What happens while a task runs, with calls nested at most `depth` deep. -/
def World.journal [Hashed V] (w : World V E) (depth : Nat) (task : Task V E α) : List (Moment V E) :=
  task.journal (Call.answer depth) (Call.journal depth) w

/-- A definition that is run: the stored binding whose definition it is, the context that it is handed,
and the world at that time. -/
structure Visit (V E : Type) where
  stored : Stored V E
  context : Context V
  world : World V E

namespace Stored

/-- The visit that asking for the cell of a value comes to, if it is granted. -/
def opening? (stored : Stored V E) (context : Context V) (slot : Slot) (w : World V E) :
    Option (Visit V E) :=
  match w.cells slot with
  | .empty =>
    some ⟨stored, context, (w.setCell slot (.creating context.resolution.number)).emit
      context.resolution.logger .notFoundInCache⟩
  | _ => none

/-- The visit that obtaining the value of a stored binding comes to, if the value has to be made. -/
def visit? [Hashed V] (stored : Stored V E) (context : Context V) (w : World V E) :
    Option (Visit V E) :=
  match stored.binding.kind with
  | .factory => some ⟨stored, context, w⟩
  | .single => stored.opening? context (.single stored.owner stored.binding.key.identity) w
  | .multi =>
    if context.parameters.isEmpty then none
    else
      stored.opening? context
        (.multi stored.owner stored.binding.key.identity context.parameters.hashKey)
        (w.emit context.resolution.logger .multiInstance)

end Stored

/-- The visit that a nested call comes to, if it runs a definition. -/
def Call.visit? [Hashed V] : Call V → World V E → Option (Visit V E)
  | resolve c path resolution key parameters, w =>
    if path.any fun visited => visited.site = key.site then none
    else
      match (w.emit resolution.logger (.lookup key)).run 0 (Resolution.locate resolution key c) with
      | .ok (.ok (some stored), found) =>
        stored.visit? { component := stored.owner, key, parameters, path := path ++ [key], resolution } found
      | _ => none
  | obtain owner key context, w =>
    (w.binding? owner key.identity).bind fun binding => Stored.visit? ⟨owner, binding⟩ context w

/-- The definition is run while the task runs, with calls nested at most `depth` deep. -/
def World.Visits [Hashed V] (w : World V E) (depth : Nat) (task : Task V E α) (visit : Visit V E) : Prop :=
  ∃ request v, .called request v ∈ w.journal depth task ∧ request.visit? v = some visit

/-- The definition of a visit makes a call itself, with calls nested at most `depth` deep. -/
def Visit.Makes [Hashed V] (visit : Visit V E) (depth : Nat) (request : Call V) (v : World V E) : Prop :=
  (visit.stored.create visit.context).Makes (Call.answer depth) visit.world request v

section Journals

variable {answer : Call V → World V E → Run V E (Reply V)}
  {record : Call V → World V E → List (Moment V E)} {w : World V E}

/-- What happens while the definition of a visit runs, from where its value begins to be made until it is
made or given up. -/
def Visit.journal [Hashed V] (visit : Visit V E) (answer : Call V → World V E → Run V E (Reply V))
    (record : Call V → World V E → List (Moment V E)) : List (Moment V E) :=
  let creation := visit.stored.create visit.context
  match visit.stored.slot? visit.context with
  | none => creation.journal answer record visit.world
  | some slot =>
    .begun slot :: creation.journal answer record visit.world ++
      match creation.run answer visit.world with
      | .ok (.ok object, _) => [.ended slot (.ready object)]
      | .ok (.error _, _) => [.ended slot .empty]
      | .error _ => []

/-! ### Journals of composed tasks -/

/-- A task followed by another leaves behind what the first and then the second leaves behind. -/
theorem Task.journal_bind (task : Task V E α) (f : α → Task V E β) (w : World V E) :
    (task.bind f).journal answer record w = task.journal answer record w ++
      match task.run answer w with
      | .ok (result, w') => (f result).journal answer record w'
      | .error _ => [] := by
  induction task generalizing w with
  | done result => rfl
  | act change next ih => exact ih w (change w)
  | acquire slot resolution next ih =>
    simp only [bind, journal, run]
    cases w.cells slot with
    | ready object => exact ih _ w
    | empty => exact congrArg (.begun slot :: ·) (ih _ _)
    | creating creator =>
      dsimp only
      split
      · exact ih _ w
      · rfl
  | settle slot cell next ih => exact congrArg (.ended slot cell :: ·) (ih _)
  | notify slot next ih => exact ih w
  | call request next ih =>
    simp only [bind, journal, run, List.append_assoc]
    cases answer request w with
    | ok pair => exact congrArg _ (ih _ _)
    | error halt => rfl
  | meet gate next ih => exact ih w

/-- The journal of a task followed by another, if the first comes to an end. -/
theorem Task.journal_bind_of_ok {task : Task V E α} {f : α → Task V E β} {w w' : World V E} {result : α}
    (h : task.run answer w = .ok (result, w')) :
    (task.bind f).journal answer record w =
      task.journal answer record w ++ (f result).journal answer record w' := by
  rw [journal_bind, h]

/-- Looking at the world is not noted down. -/
@[simp]
theorem Task.journal_read (f : World V E → Task V E α) :
    (Task.read >>= f).journal answer record w = (f w).journal answer record w := rfl

/-- Reporting an event is not noted down. -/
@[simp]
theorem Task.journal_emit (resolution : Resolution) (event : Event) (f : Unit → Task V E α) :
    (Task.emit resolution event >>= f).journal answer record w =
      (f ()).journal answer record (w.emit resolution.logger event) := rfl

namespace Task

/-- A task that only changes the world leaves nothing behind. -/
theorem Acts.journal {task : Task V E α} (h : task.Acts) (w : World V E) :
    task.journal answer record w = [] := by
  induction task generalizing w with
  | done result => rfl
  | act change next ih => exact ih w (h w) (change w)
  | _ => exact h.elim

/-- A task that only changes the world comes to an end, which does not depend on any answers. -/
theorem Acts.exists_run {task : Task V E α} (h : task.Acts) (w : World V E) :
    ∃ result w', ∀ answer, task.run answer w = .ok (result, w') := by
  induction task generalizing w with
  | done result => exact ⟨result, w, fun _ => rfl⟩
  | act change next ih => exact ih w (h w) (change w)
  | _ => exact h.elim

/-- What only changes the world afterwards adds nothing. -/
theorem journal_bind_acts {task : Task V E α} {f : α → Task V E β} (hf : ∀ result, (f result).Acts) :
    (task.bind f).journal answer record w = task.journal answer record w := by
  rw [journal_bind]
  split
  · rw [(hf _).journal, List.append_nil]
  · exact List.append_nil _

end Task

/-- Locating a key only changes the world. -/
theorem Resolution.locate_acts (resolution : Resolution) (key : Key) (c : ComponentId) :
    (locate resolution key c : Task V E (Except ResolveError (Option (Stored V E)))).Acts := by
  apply (search_acts c).bind
  intro found
  cases found with
  | some stored => trivial
  | none => exact synthesize_acts c

/-! ### The definition that a call runs -/

/-- Nothing but cells and reports have changed when a definition is called. -/
theorem Stored.visit?_eq_some [Hashed V] {stored : Stored V E} {context : Context V} {visit : Visit V E}
    (h : stored.visit? context w = some visit) :
    visit.stored = stored ∧ visit.context = context ∧ visit.world.components = w.components := by
  have hopening {slot : Slot} {v : World V E} (hopening : stored.opening? context slot v = some visit) :
      visit.stored = stored ∧ visit.context = context ∧ visit.world.components = v.components := by
    unfold opening? at hopening
    split at hopening
    · exact Option.some.inj hopening ▸ ⟨rfl, rfl, World.emit_components _ _ _⟩
    · cases hopening
  unfold visit? at h
  split at h
  · exact Option.some.inj h ▸ ⟨rfl, rfl, rfl⟩
  · exact hopening h
  · split at h
    · cases h
    · obtain ⟨hstored, hcontext, hcomponents⟩ := hopening h
      exact ⟨hstored, hcontext, hcomponents.trans (World.emit_components _ _ _)⟩

/-- The visit is what a call comes to: its key has been located, or it names a binding that is stored. -/
inductive Visit.Answers [Hashed V] (visit : Visit V E) (w : World V E) : Call V → Prop
  | located {c : ComponentId} {path : List Key} {resolution : Resolution} {key : Key} {parameters : Parameters V}
      {found : World V E} : (∀ visited ∈ path, visited.site ≠ key.site) →
        (Resolution.locate resolution key c).run (Call.answer 0) (w.emit resolution.logger (.lookup key)) =
          .ok (.ok (some visit.stored), found) →
        visit.context = { component := visit.stored.owner, key, parameters, path := path ++ [key], resolution } →
          visit.world.components = found.components → Answers visit w (.resolve c path resolution key parameters)
  | named {owner : ComponentId} {key : Key} {context : Context V} {binding : Binding V E} :
      w.binding? owner key.identity = some binding → visit.stored = ⟨owner, binding⟩ → visit.context = context →
        visit.world.components = w.components → Answers visit w (.obtain owner key context)

/-- Every definition that a call runs is run in one of these two ways. -/
theorem Visit.answers_of_visit? [Hashed V] {visit : Visit V E} {request : Call V}
    (h : request.visit? w = some visit) : visit.Answers w request := by
  cases request with
  | resolve c path resolution key parameters =>
    simp only [Call.visit?] at h
    split at h
    · cases h
    · next hfresh =>
      split at h
      · next stored found hlocate =>
        obtain ⟨rfl, hcontext, hcomponents⟩ := Stored.visit?_eq_some h
        exact .located (by simpa using hfresh) hlocate hcontext hcomponents
      · cases h
  | obtain owner key context =>
    obtain ⟨binding, hbinding, hvisit⟩ := Option.bind_eq_some_iff.mp h
    obtain ⟨hstored, hcontext, hcomponents⟩ := Stored.visit?_eq_some hvisit
    exact .named hbinding hstored hcontext hcomponents

/-- Asking for the cell of a value leaves behind what making the value does, if it has to be made. -/
theorem Stored.keep_journal [Hashed V] {stored : Stored V E} {context : Context V} {slot : Slot}
    (hslot : stored.slot? context = some slot) (w : World V E) :
    (Task.keep slot context (stored.create context)).journal answer record w =
      ((stored.opening? context slot w).elim [] fun visit => visit.journal answer record) := by
  unfold Task.keep Task.journal opening?
  cases w.cells slot with
  | ready object => rfl
  | creating creator =>
    dsimp only
    split <;> rfl
  | empty =>
    dsimp only [Option.elim_some]
    rw [Visit.journal, hslot]
    simp only [Task.journal_emit, List.cons_append, List.cons.injEq, true_and]
    refine (Task.journal_bind _ _ _).trans (congrArg _ ?_)
    split
    · next result made hcreated =>
      cases result <;> simp only [hcreated] <;> rfl
    · next halt hhalted => simp only [hhalted]

/-- Obtaining the value of a stored binding leaves behind what running its definition does, if it is run. -/
theorem Stored.obtain_journal [Hashed V] (stored : Stored V E) (context : Context V) (w : World V E) :
    (stored.obtain context).journal answer record w =
      ((stored.visit? context w).elim [] fun visit => visit.journal answer record) := by
  unfold obtain visit?
  dsimp only
  cases hkind : stored.binding.kind with
  | factory => simp [Visit.journal, slot?, hkind]
  | single => exact keep_journal (by simp [slot?, hkind]) w
  | multi =>
    dsimp only
    split
    · rfl
    · rw [Task.journal_emit]
      exact keep_journal (by simp [slot?, hkind]) _

/-- A call leaves behind what the definition does that it runs, or nothing if it runs none. -/
theorem Call.body_journal [Hashed V] (request : Call V) (w : World V E) :
    request.body.journal answer record w =
      ((request.visit? w).elim [] fun visit => visit.journal answer record) := by
  cases request with
  | resolve c path resolution key parameters =>
    obtain ⟨located, found, hlocate⟩ := (Resolution.locate_acts (V := V) (E := E) resolution key c).exists_run
      (w.emit resolution.logger (.lookup key))
    have hjournal : (Resolution.locate resolution key c).journal answer record
        (w.emit resolution.logger (.lookup key)) = [] := (Resolution.locate_acts resolution key c).journal _
    simp only [body, Resolution.resolve, Task.journal_emit, visit?, World.run, hlocate]
    split
    · rfl
    · refine (Task.journal_bind_of_ok (hlocate answer)).trans ?_
      rw [hjournal, List.nil_append]
      match located with
      | .error e => rfl
      | .ok none =>
        dsimp only
        split <;> rfl
      | .ok (some stored) =>
        dsimp only
        refine (Task.journal_bind_acts fun result => ?_).trans (Stored.obtain_journal _ _ _)
        cases result with
        | ok object => trivial
        | error e => exact (Task.emit_acts _ _).bind fun _ => trivial
  | obtain owner key context =>
    simp only [body, Task.journal_read, visit?]
    cases w.binding? owner key.identity with
    | none => rfl
    | some binding =>
      dsimp only [Option.bind_some]
      refine (Task.journal_bind_acts fun result => ?_).trans (Stored.obtain_journal _ _ _)
      cases result <;> trivial

/-! ### Where journals come from -/

/-- What a resolution is given that asks for a cell, and the world after that; nothing if it has to wait. -/
def World.acquire? (w : World V E) (slot : Slot) (resolution : Resolution) : Option (Grant V × World V E) :=
  match w.cells slot with
  | .ready object => some (.ready object, w)
  | .empty => some (.granted, w.setCell slot (.creating resolution.number))
  | .creating creator => if creator = resolution.number then some (.cycle, w) else none

/-- What is noted down of a grant. -/
def Grant.noted (slot : Slot) : Grant V → List (Moment V E)
  | granted => [.begun slot]
  | ready _ | cycle => []

/-- Looking into a cell changes no component. -/
theorem World.acquire?_components {slot : Slot} {resolution : Resolution} {pair : Grant V × World V E}
    (h : w.acquire? slot resolution = some pair) : pair.2.components = w.components := by
  unfold acquire? at h
  split at h
  · exact Option.some.inj h ▸ rfl
  · exact Option.some.inj h ▸ rfl
  · split at h
    · exact Option.some.inj h ▸ rfl
    · cases h

/-- The making of a value that begins is not a call. -/
@[simp]
theorem Grant.called_mem_noted_append {grant : Grant V} {slot : Slot} {request : Call V} {v : World V E}
    {rest : List (Moment V E)} : .called request v ∈ grant.noted slot ++ rest ↔ .called request v ∈ rest := by
  cases grant <;> simp [noted]

namespace Task

section Acquire

variable {slot : Slot} {resolution : Resolution} {next : Grant V → Task V E α}

/-- Asking for a cell goes on with what is given, or halts. -/
theorem run_acquire : (acquire slot resolution next).run answer w =
    (w.acquire? slot resolution).elim (.error .stuck) fun pair => (next pair.1).run answer pair.2 := by
  rw [run, World.acquire?]
  cases w.cells slot with
  | ready object => rfl
  | empty => rfl
  | creating creator => dsimp only; split <;> rfl

/-- Of asking for a cell it is noted down if the making of its value begins. -/
theorem journal_acquire : (acquire slot resolution next).journal answer record w =
    (w.acquire? slot resolution).elim [] fun pair =>
      pair.1.noted slot ++ (next pair.1).journal answer record pair.2 := by
  rw [journal, World.acquire?]
  cases w.cells slot with
  | ready object => rfl
  | empty => rfl
  | creating creator => dsimp only; split <;> rfl

end Acquire

variable {task : Task V E α} {request : Call V} {v : World V E}

/-- A call is taken up only within what a call leaves behind that the task makes itself. -/
theorem called_mem (h : .called request v ∈ task.journal answer record w) :
    ∃ outer u, task.Makes answer w outer u ∧ .called request v ∈ record outer u ∧
      record outer u ⊆ task.journal answer record w := by
  unfold Makes
  induction task generalizing w with
  | done result => cases h
  | act change next ih => exact ih w h
  | acquire slot resolution next ih =>
    rw [journal_acquire] at h
    simp only [journal_acquire]
    cases hacquire : w.acquire? slot resolution with
    | none => simp [hacquire] at h
    | some pair =>
      rw [hacquire] at h
      obtain ⟨outer, u, hmade, hmem, hsubset⟩ := ih pair.1 (Grant.called_mem_noted_append.mp h)
      refine ⟨outer, u, Grant.called_mem_noted_append.mpr hmade, hmem, ?_⟩
      exact List.Subset.trans hsubset (List.subset_append_right _ _)
  | settle slot cell next ih =>
    simp only [journal, List.mem_cons, reduceCtorEq, false_or] at h
    obtain ⟨outer, u, hmade, hmem, hsubset⟩ := ih h
    exact ⟨outer, u, List.mem_cons_of_mem _ hmade, hmem, List.Subset.trans hsubset (List.subset_cons_self _ _)⟩
  | notify slot next ih => exact ih h
  | call inner next ih =>
    unfold journal at h ⊢
    rcases List.mem_append.mp h with hmem | hmem
    · exact ⟨inner, w, List.mem_cons_self, hmem, List.subset_append_left _ _⟩
    · cases hreply : answer inner w with
      | error halt => simp [hreply] at hmem
      | ok pair =>
        simp only [hreply] at hmem
        obtain ⟨outer, u, hmade, houter, hsubset⟩ := ih _ hmem
        exact ⟨outer, u, List.mem_cons_of_mem _ hmade, houter, List.Subset.trans hsubset (List.subset_append_right _ _)⟩
  | meet gate next ih => exact ih h

/-- A call that is made is the first one or made after the reply to it. -/
theorem makes_call {made : Call V} {next : Reply V → Task V E α} (h : (call made next).Makes answer w request v) :
    (request = made ∧ v = w) ∨ ∃ reply w', answer made w = .ok (reply, w') ∧ (next reply).Makes answer w' request v := by
  unfold Makes Task.journal at h
  rcases List.mem_append.mp h with hfirst | hrest
  · obtain ⟨rfl, rfl⟩ := Moment.called.inj (List.mem_singleton.mp hfirst)
    exact .inl ⟨rfl, rfl⟩
  · cases hanswer : answer made w with
    | error halt => simp [hanswer] at hrest
    | ok pair =>
      rw [hanswer] at hrest
      exact .inr ⟨pair.1, pair.2, rfl, hrest⟩

/-- Calls are nested too deep only within a call that the task makes itself. -/
theorem makes_of_tooDeep (h : task.run answer w = .error .tooDeep) :
    ∃ request v, task.Makes answer w request v ∧ answer request v = .error .tooDeep := by
  unfold Makes
  induction task generalizing w with
  | done result => cases h
  | act change next ih => exact ih w h
  | acquire slot resolution next ih =>
    rw [run_acquire] at h
    simp only [journal_acquire]
    cases hacquire : w.acquire? slot resolution with
    | none => simp [hacquire] at h
    | some pair =>
      rw [hacquire] at h
      obtain ⟨request, v, hmade, hdeep⟩ := ih pair.1 h
      exact ⟨request, v, Grant.called_mem_noted_append.mpr hmade, hdeep⟩
  | settle slot cell next ih =>
    obtain ⟨request, v, hmade, hdeep⟩ := ih h
    exact ⟨request, v, List.mem_cons_of_mem _ hmade, hdeep⟩
  | notify slot next ih => exact ih h
  | call inner next ih =>
    unfold run at h
    unfold journal
    cases hreply : answer inner w with
    | error halt =>
      simp only [hreply] at h
      exact ⟨inner, w, List.mem_cons_self, hreply.trans (congrArg Except.error (Except.error.inj h))⟩
    | ok pair =>
      simp only [hreply] at h
      obtain ⟨request, v, hmade, hdeep⟩ := ih _ h
      exact ⟨request, v, List.mem_cons_of_mem _ hmade, hdeep⟩
  | meet gate next ih => exact ih h

end Task

variable [Hashed V] {depth : Nat} {request : Call V} {v : World V E}

/-- A call that is taken up leaves behind all that its body does. -/
theorem Call.journal_of_called {outer : Call V} {u : World V E} (h : .called request v ∈ Call.journal depth outer u) :
    ∃ depth', Call.journal (depth' + 1) request v ⊆ Call.journal depth outer u := by
  induction depth generalizing outer u with
  | zero => cases h
  | succ depth ih =>
    rcases List.mem_cons.mp h with heq | hmem
    · obtain ⟨rfl, rfl⟩ := Moment.called.inj heq
      exact ⟨depth, List.Subset.refl _⟩
    · obtain ⟨inner, t, -, hinner, hsubset⟩ := Task.called_mem hmem
      obtain ⟨depth', hdepth⟩ := ih hinner
      exact ⟨depth', List.Subset.trans hdepth (List.Subset.trans hsubset (List.subset_cons_self _ _))⟩

/-- A definition that is run leaves behind all that it does. -/
theorem World.Visits.journal_subset {task : Task V E α} {visit : Visit V E} (h : w.Visits depth task visit) :
    ∃ depth', visit.journal (Call.answer depth') (Call.journal depth') ⊆ w.journal depth task := by
  obtain ⟨request, v, hmem, hvisit⟩ := h
  obtain ⟨outer, u, -, houter, hsubset⟩ := Task.called_mem hmem
  obtain ⟨depth', hdepth⟩ := Call.journal_of_called houter
  refine ⟨depth', fun moment hmoment => hsubset (hdepth (List.mem_cons_of_mem _ ?_))⟩
  rwa [Call.body_journal, hvisit]

/-- The making of a value that is kept begins when its definition is run. -/
theorem Visit.begun_mem {visit : Visit V E} {slot : Slot} (h : visit.stored.slot? visit.context = some slot) :
    .begun slot ∈ visit.journal answer record := by
  unfold journal
  rw [h]
  exact List.mem_cons_self

/-- What the definition of a visit does is part of what the visit leaves behind. -/
theorem Visit.creation_subset (visit : Visit V E) (answer : Call V → World V E → Run V E (Reply V))
    (record : Call V → World V E → List (Moment V E)) :
    (visit.stored.create visit.context).journal answer record visit.world ⊆ visit.journal answer record := by
  unfold journal
  dsimp only
  split
  · exact List.Subset.refl _
  · exact List.Subset.trans (List.subset_cons_self _ _) (List.subset_append_left _ _)

/-- All calls that a visit leaves behind are left behind by its definition. -/
theorem Visit.called_creation {visit : Visit V E} (h : .called request v ∈ visit.journal answer record) :
    .called request v ∈ (visit.stored.create visit.context).journal answer record visit.world := by
  unfold journal at h
  dsimp only at h
  split at h
  · exact h
  · rw [List.cons_append, List.mem_cons, List.mem_append] at h
    rcases h with hbegun | hmem | hended
    · cases hbegun
    · exact hmem
    · split at hended <;> simp at hended

end Journals

/-! ### Which calls are made -/

open Classical in
/-- The same answers as before to calls that may be made. Other calls halt, in a way in which those do not. -/
noncomputable def Contract.guarded (K : Contract V E) (answer : Call V → World V E → Run V E (Reply V)) :
    Call V → World V E → Run V E (Reply V) := fun request w =>
  if K.asks request w then
    match answer request w with
    | .ok after => .ok after
    | .error _ => .error .stuck
  else .error .tooDeep

/-- A task that makes a call which it may not make halts when it does, once such calls are answered so. -/
theorem Task.run_guarded {K : Contract V E} {task : Task V E α} {request : Call V} {v : World V E}
    (hmakes : task.Makes answer w request v) (hasks : ¬ K.asks request v) :
    task.run (K.guarded answer) w = .error .tooDeep := by
  induction task generalizing w with
  | done result => cases hmakes
  | act change next ih => exact ih w hmakes
  | acquire slot resolution next ih =>
    unfold Makes at hmakes
    rw [journal_acquire] at hmakes
    rw [run_acquire]
    cases hacquire : w.acquire? slot resolution with
    | none => simp [hacquire] at hmakes
    | some pair =>
      rw [hacquire] at hmakes
      exact ih pair.1 (Grant.called_mem_noted_append.mp hmakes)
  | settle slot cell next ih => exact ih ((List.mem_cons.mp hmakes).resolve_left (by simp))
  | notify slot next ih => exact ih hmakes
  | call made next ih =>
    unfold run Contract.guarded
    by_cases hmade : K.asks made w
    · rcases makes_call hmakes with ⟨rfl, rfl⟩ | ⟨reply, w', hreply, hlater⟩
      · exact absurd hmade hasks
      · rw [if_pos hmade, hreply]
        exact ih reply hlater
    · rw [if_neg hmade]
  | meet gate next ih => exact ih hmakes

/-- A task that keeps promises whoever keeps them makes only calls that may be made. -/
theorem Task.asks_of_makes {K : Contract V E} {halts : Halt → Prop} (hkept : K.KeptBy answer halts)
    {task : Task V E α} {post : α → World V E → Prop}
    (htask : ∀ answer', K.KeptBy answer' (· = .stuck) → (task.run answer' w).Meets (· = .stuck) post)
    {request : Call V} {v : World V E} (hmakes : task.Makes answer w request v) : K.asks request v := by
  by_contra hasks
  have hguarded : K.KeptBy (K.guarded answer) (· = .stuck) := by
    intro made u hmade
    have hmeets := hkept made u hmade
    unfold Contract.guarded
    rw [if_pos hmade]
    cases hreply : answer made u with
    | error halt => exact rfl
    | ok after =>
      rw [hreply] at hmeets
      exact hmeets
  have hmeets := htask _ hguarded
  rw [run_guarded hmakes hasks] at hmeets
  cases hmeets

/-- If what calls do keeps promises whoever keeps them, all calls that are taken up within a call that may be
made may be made as well. -/
theorem Contract.asks_of_called [Hashed V] {K : Contract V E} {halts : Halt → Prop}
    (hkept : ∀ depth, K.KeptBy (Call.answer depth) halts)
    (hbody : ∀ request w answer, K.asks request w → K.KeptBy answer (· = .stuck) →
      (request.body.run answer w).Meets (· = .stuck) (K.answers request w))
    {depth : Nat} {outer request : Call V} {u v : World V E} (houter : K.asks outer u)
    (hcalled : .called request v ∈ Call.journal depth outer u) : K.asks request v := by
  induction depth generalizing outer u with
  | zero => cases hcalled
  | succ depth ih =>
    rcases List.mem_cons.mp hcalled with hsame | hwithin
    · obtain ⟨rfl, rfl⟩ := Moment.called.inj hsame
      exact houter
    · obtain ⟨inner, t, hmakes, hinner, -⟩ := Task.called_mem hwithin
      exact ih (Task.asks_of_makes (hkept depth) (fun answer => hbody outer u answer houter) hmakes) hinner

/-! ### Deeper runs -/

/-- What ends with calls answered one way ends alike with calls answered another way, if the answers that
there are stay the same. -/
theorem Task.run_mono {answer answer' : Call V → World V E → Run V E (Reply V)}
    (hanswer : ∀ {request w after}, answer request w = .ok after → answer' request w = .ok after)
    {task : Task V E α} {w : World V E} {after : α × World V E} (h : task.run answer w = .ok after) :
    task.run answer' w = .ok after := by
  induction task generalizing w with
  | done result => exact h
  | act change next ih => exact ih w h
  | acquire slot resolution next ih =>
    rw [run_acquire] at h ⊢
    cases hacquire : w.acquire? slot resolution with
    | none => simp [hacquire] at h
    | some pair =>
      rw [hacquire] at h
      exact ih pair.1 h
  | settle slot cell next ih => exact ih h
  | notify slot next ih => exact ih h
  | call request next ih =>
    unfold run at h ⊢
    cases hreply : answer request w with
    | error halt => simp [hreply] at h
    | ok pair =>
      simp only [hreply] at h
      simp only [hanswer hreply]
      exact ih pair.1 h
  | meet gate next ih => exact ih h

/-- An answer does not depend on the bound that it stays within. -/
theorem Call.answer_mono [Hashed V] {depth depth' : Nat} (hdepth : depth ≤ depth') {request : Call V}
    {w : World V E} {after : Reply V × World V E} (h : Call.answer depth request w = .ok after) :
    Call.answer depth' request w = .ok after := by
  induction depth generalizing depth' request w after with
  | zero => cases h
  | succ depth ih =>
    cases depth' with
    | zero => exact absurd hdepth (Nat.not_succ_le_zero _)
    | succ depth' => exact Task.run_mono (fun h => ih (Nat.le_of_succ_le_succ hdepth) h) h

/-- A call has one answer, whatever the bounds that it is answered within. -/
theorem Call.answer_unique [Hashed V] {depth depth' : Nat} {request : Call V} {w : World V E}
    {after after' : Reply V × World V E} (h : Call.answer depth request w = .ok after)
    (h' : Call.answer depth' request w = .ok after') : after = after' :=
  Except.ok.inj ((Call.answer_mono (Nat.le_max_left _ _) h).symm.trans (Call.answer_mono (Nat.le_max_right _ _) h'))

/-! ### Top-level requests -/

/-- A top-level query leaves behind what its call does. -/
theorem Query.journal_task [Hashed V] (q : Query V) (c : ComponentId) (depth : Nat) (w : World V E) :
    w.journal depth (q.task c) = Call.journal depth (q.call c w) w.entered := by
  have hacts (reply : Reply V) : (pure (q.accept reply) : Task V E (Reply V)).Acts := trivial
  refine (Task.journal_bind_acts hacts).trans ?_
  unfold Task.enter Task.journal
  simp only [Task.journal]
  split <;> exact List.append_nil _

end Injection

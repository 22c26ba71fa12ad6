import Injection.Proofs.Lifespan
import Injection.Proofs.Propagation

/-!
# What is made to be kept

A journal says which values begin and end to be made, and in which cells. Beside it, the creations of a run say what
makes each of them: a program, the context that it is called in, and the world that it finds. They are read off
programs and nested calls in the order in which they begin, without looking at the tasks that carry them out.

The two agree, `Moment.Tells`: each creation has its place in the journal, from where it begins to where it ends, and
what is noted down of its end is what its program has come to. As the cells change as the journal tells, a value is
kept exactly if a creation has come to it, and once one has, there is no other creation for the cell.
-/

namespace Injection

variable {V E α β : Type}

/-! ### Creations -/

/-- The making of a value that is kept in a cell: the program that makes it, the context that this is called in, and
the world at that time. -/
structure Creation (V E : Type) where
  slot : Slot
  context : Context V
  program : Program V E
  world : World V E

/-- What is left in a cell after what was to make its value has come to an outcome. -/
def Cell.after : Outcome V → Cell V
  | .ok object => .ready object
  | .error _ => .empty

/-- A cell is ready after an attempt exactly with the object that the attempt comes to. -/
@[simp]
theorem Cell.after_eq_ready {outcome : Outcome V} {object : Object V} :
    after outcome = .ready object ↔ outcome = .ok object := by
  cases outcome <;> simp [after]

namespace Creation

variable [Hashed V] {creation : Creation V E} {outcome outcome' : Outcome V}

/-- What the program of a creation comes to. -/
def ComesTo (creation : Creation V E) (outcome : Outcome V) : Prop :=
  ∃ depth made, creation.world.run depth (creation.program.toTask creation.context) = .ok (outcome, made)

/-- The program of a creation makes a value. -/
def Succeeds (creation : Creation V E) : Prop := ∃ object, creation.ComesTo (.ok object)

/-- A creation comes to one outcome only. -/
theorem ComesTo.unique (h : creation.ComesTo outcome) (h' : creation.ComesTo outcome') : outcome = outcome' := by
  obtain ⟨depth, made, hrun⟩ := h
  obtain ⟨depth', made', hrun'⟩ := h'
  have hdeep := Task.run_mono (fun h => Call.answer_mono (Nat.le_max_left depth depth') h) hrun
  have hdeep' := Task.run_mono (fun h => Call.answer_mono (Nat.le_max_right depth depth') h) hrun'
  exact (Prod.mk.inj (Except.ok.inj (hdeep.symm.trans hdeep'))).1

/-- What has failed does not succeed. -/
theorem ComesTo.not_succeeds {e : DefinitionError} (h : creation.ComesTo (.error e)) : ¬ creation.Succeeds :=
  fun ⟨_, hobject⟩ => by cases h.unique hobject

end Creation

/-- What begins to be made when a value is asked for that is kept in a cell, if it is not there. -/
def World.creation? (w : World V E) (slot : Slot) (context : Context V) (program : Program V E) :
    Option (Creation V E) :=
  match w.cells slot with
  | .empty => some ⟨slot, context, program, w.opened slot context⟩
  | _ => none

/-- What is listed of the end of a run, if there is one. -/
def Run.onEnd (run : Run V E α) (list : α → World V E → List β) : List β :=
  match run with
  | .ok (result, w) => list result w
  | .error _ => []

/-- The run comes to no end. -/
def Run.Halts (run : Run V E α) : Prop := ∀ after, run ≠ .ok after

/-- A run that has halted comes to no end. -/
theorem Run.halts_error (halt : Halt) : Run.Halts (.error halt : Run V E α) := by
  intro after hafter
  cases hafter

section Definitions

variable (answer : Call V → World V E → Run V E (Reply V))
  (begins : Call V → World V E → List (Creation V E))

/-- What is made to be kept while a program runs in a context, in the order in which it begins. Nested calls are
answered by `answer`, and `begins` says what is made while they are. -/
def Program.creations (context : Context V) : Program V E → World V E → List (Creation V E)
  | .done _, _ => []
  | .request key parameters next, w =>
    let request : Call V := .resolve context.component context.path context.resolution key parameters
    begins request w ++ (answer request w).onEnd fun reply w' => (next reply).creations context w'
  | .start c key parameters next, w =>
    let resolution : Resolution := ⟨w.nextResolution, (w.config c).logger <|> context.resolution.logger⟩
    let request : Call V := .resolve c [] resolution key parameters
    begins request w.entered ++ (answer request w.entered).onEnd fun reply w' => (next reply).creations context w'
  | .forward owner key next, w =>
    if w.isAlive owner then
      let request : Call V := .obtain owner key { context with component := owner }
      begins request w ++
        (answer request w).onEnd fun reply w' => (next (Dependency.present key reply)).creations context w'
    else (next (.error (.unresolved key))).creations context w
  | .share entry body next, w =>
    let create := (body.toTask context).bind fun outcome => .done (outcome.mapError DefinitionError.toResolveError)
    ((w.creation? (.shared entry) context body).elim [] fun creation =>
      creation :: body.creations context creation.world) ++
        ((Task.keep (.shared entry) context create).run answer w).onEnd fun result w' => (next result).creations context w'
  | .make type value next, w => (next (w.allocate type value).1).creations context (w.allocate type value).2
  | .touch change next, w =>
    (next w.surroundings).creations context { w with surroundings := change w.surroundings }
  | .report event next, w => next.creations context (w.emit context.resolution.logger event)
  | .meet _ next, w => next.creations context w

/-- What is made to be kept while the definition of a visit runs: the value of the binding itself, if it is kept, and
then what its definition leads to. -/
def Visit.creations [Hashed V] (visit : Visit V E) : List (Creation V E) :=
  let program := visit.stored.binding.definition visit.context
  let nested := program.creations answer begins visit.context visit.world
  match visit.stored.slot? visit.context with
  | none => nested
  | some slot => ⟨slot, visit.context, program, visit.world⟩ :: nested

end Definitions

/-- What is made to be kept while a nested call is answered, with calls nested at most `depth` deep within it. -/
def Call.creations [Hashed V] : (depth : Nat) → Call V → World V E → List (Creation V E)
  | 0, _, _ => []
  | depth + 1, request, w =>
    (request.visit? w).elim [] fun visit => visit.creations (Call.answer depth) (Call.creations depth)

/-- What is made to be kept while a top-level query is answered at a component. -/
def World.creations [Hashed V] (w : World V E) (depth : Nat) (q : Query V) (c : ComponentId) :
    List (Creation V E) := Call.creations depth (q.call c w) w.entered

/-! ### Journals that tell of creations -/

/-- Moments tell of creations, each from where it begins to where it ends as its program has come to. Where a run
halts, creations may be left unended. -/
inductive Moment.Tells [Hashed V] (halts : Prop) : List (Moment V E) → List (Creation V E) → Prop
  | nothing : Tells halts [] []
  | called {request : Call V} {w : World V E} {moments : List (Moment V E)} {creations : List (Creation V E)} :
      Tells halts moments creations → Tells halts (.called request w :: moments) creations
  | created {creation : Creation V E} {outcome : Outcome V} {inner rest : List (Moment V E)}
      {nested later : List (Creation V E)} :
      creation.ComesTo outcome → Tells halts inner nested → Tells halts rest later →
        Tells halts (.begun creation.slot :: (inner ++ .ended creation.slot (.after outcome) :: rest))
          (creation :: (nested ++ later))
  | halted {creation : Creation V E} {inner : List (Moment V E)} {nested : List (Creation V E)} :
      halts → Tells halts inner nested → Tells halts (.begun creation.slot :: inner) (creation :: nested)

namespace Moment.Tells

variable [Hashed V] {halts halts' : Prop} {journal journal' : List (Moment V E)}
  {creations creations' : List (Creation V E)} {creation : Creation V E} {slot : Slot} {cell : Cell V}

/-- What is told of a run that may halt for one reason is told if it may halt for another. -/
theorem mono (h : Tells halts journal creations) (hhalts : halts → halts') : Tells halts' journal creations := by
  induction h with
  | nothing => exact .nothing
  | called _ ih => exact .called ih
  | created hcomes _ _ ihinner ihrest => exact .created hcomes ihinner ihrest
  | halted hhalted _ ih => exact .halted (hhalts hhalted) ih

/-- What comes to an end may be followed by anything. -/
theorem append (h : Tells False journal creations) (h' : Tells halts journal' creations') :
    Tells halts (journal ++ journal') (creations ++ creations') := by
  induction h with
  | nothing => exact h'
  | called _ ih => exact .called ih
  | @created creation outcome inner rest nested later hcomes hinner _ _ ihrest =>
    have hlast := Tells.created hcomes (hinner.mono False.elim) ihrest
    simpa using hlast
  | halted hhalted => exact hhalted.elim

/-- What is made begins to be made. -/
theorem begun_mem (h : Tells halts journal creations) (hmem : creation ∈ creations) :
    .begun creation.slot ∈ journal := by
  induction h with
  | nothing => cases hmem
  | called _ ih => exact List.mem_cons_of_mem _ (ih hmem)
  | created _ _ _ ihinner ihrest =>
    rcases List.mem_cons.mp hmem with rfl | hmem
    · exact List.mem_cons_self
    · refine List.mem_cons_of_mem _ (List.mem_append.mpr ?_)
      exact (List.mem_append.mp hmem).imp ihinner fun hlater => List.mem_cons_of_mem _ (ihrest hlater)
  | halted _ _ ih =>
    rcases List.mem_cons.mp hmem with rfl | hmem
    · exact List.mem_cons_self
    · exact List.mem_cons_of_mem _ (ih hmem)

/-- The end of an attempt is noted down as a creation has come to it. -/
theorem exists_of_ended (h : Tells halts journal creations) (hmem : .ended slot cell ∈ journal) :
    ∃ creation ∈ creations, creation.slot = slot ∧ ∃ outcome, creation.ComesTo outcome ∧ cell = .after outcome := by
  induction h with
  | nothing => cases hmem
  | called _ ih => exact ih ((List.mem_cons.mp hmem).resolve_left (by simp))
  | @created creation outcome inner rest nested later hcomes _ _ ihinner ihrest =>
    rcases List.mem_append.mp ((List.mem_cons.mp hmem).resolve_left (by simp)) with hinner | hrest
    · obtain ⟨other, hother, hends⟩ := ihinner hinner
      exact ⟨other, List.mem_cons_of_mem _ (List.mem_append_left _ hother), hends⟩
    · rcases List.mem_cons.mp hrest with hsame | hlater
      · obtain ⟨rfl, rfl⟩ := Moment.ended.inj hsame
        exact ⟨creation, List.mem_cons_self, rfl, outcome, hcomes, rfl⟩
      · obtain ⟨other, hother, hends⟩ := ihrest hlater
        exact ⟨other, List.mem_cons_of_mem _ (List.mem_append_right _ hother), hends⟩
  | halted _ _ ih =>
    obtain ⟨other, hother, hends⟩ := ih ((List.mem_cons.mp hmem).resolve_left (by simp))
    exact ⟨other, List.mem_cons_of_mem _ hother, hends⟩

/-- Where nothing halts, what is made comes to an outcome, which is noted down. -/
theorem exists_outcome (h : Tells False journal creations) (hmem : creation ∈ creations) :
    ∃ outcome, creation.ComesTo outcome ∧ .ended creation.slot (.after outcome) ∈ journal := by
  induction h with
  | nothing => cases hmem
  | called _ ih =>
    obtain ⟨outcome, hcomes, hended⟩ := ih hmem
    exact ⟨outcome, hcomes, List.mem_cons_of_mem _ hended⟩
  | @created _ outcome _ _ _ _ hcomes _ _ ihinner ihrest =>
    rcases List.mem_cons.mp hmem with rfl | hmem
    · exact ⟨outcome, hcomes, List.mem_cons_of_mem _ (List.mem_append_right _ List.mem_cons_self)⟩
    · rcases List.mem_append.mp hmem with hnested | hlater
      · obtain ⟨outcome, hcomes, hended⟩ := ihinner hnested
        exact ⟨outcome, hcomes, List.mem_cons_of_mem _ (List.mem_append_left _ hended)⟩
      · obtain ⟨outcome, hcomes, hended⟩ := ihrest hlater
        exact ⟨outcome, hcomes,
          List.mem_cons_of_mem _ (List.mem_append_right _ (List.mem_cons_of_mem _ hended))⟩
  | halted hhalted => exact hhalted.elim

/-- What is noted down of the ends of attempts is exactly what creations have come to. -/
theorem ended_iff (h : Tells False journal creations) : .ended slot cell ∈ journal ↔
    ∃ creation ∈ creations, creation.slot = slot ∧ ∃ outcome, creation.ComesTo outcome ∧ cell = .after outcome := by
  refine ⟨h.exists_of_ended, ?_⟩
  rintro ⟨creation, hmem, rfl, outcome, hcomes, rfl⟩
  obtain ⟨other, hother, hended⟩ := h.exists_outcome hmem
  obtain rfl := hcomes.unique hother
  exact hended

/-- An object is noted down as made exactly if a creation has come to it. -/
theorem made_iff (h : Tells False journal creations) {object : Object V} : .ended slot (.ready object) ∈ journal ↔
    ∃ creation ∈ creations, creation.slot = slot ∧ creation.ComesTo (.ok object) := by
  refine h.ended_iff.trans (exists_congr fun creation => and_congr_right fun _ => and_congr_right fun _ => ?_)
  simp [eq_comm]

/-! ### Creations and cells -/

/-- While a value is being made nobody begins to make it. -/
theorem quiet_of_creating (h : Tells False journal creations) {number : Nat}
    (hturns : Cell.Turns slot (.creating number) journal cell) :
    cell = .creating number ∧ ∀ moment ∈ journal, ¬ moment.Concerns slot := by
  induction h generalizing cell with
  | nothing =>
    cases hturns
    exact ⟨rfl, by simp⟩
  | called _ ih =>
    cases hturns with
    | other hmoment hrest =>
      obtain ⟨hcell, hquiet⟩ := ih hrest
      exact ⟨hcell, List.forall_mem_cons.mpr ⟨hmoment, hquiet⟩⟩
  | created _ _ _ ihinner ihrest =>
    cases hturns with
    | other hbegun hafter =>
      obtain ⟨between, hinner, hends⟩ := hafter.split
      obtain ⟨rfl, hquiet⟩ := ihinner hinner
      cases hends with
      | ended _ _ => exact absurd rfl hbegun
      | other hended hrest =>
        obtain ⟨hcell, hlater⟩ := ihrest hrest
        refine ⟨hcell, List.forall_mem_cons.mpr ⟨hbegun, List.forall_mem_append.mpr ⟨hquiet, ?_⟩⟩⟩
        exact List.forall_mem_cons.mpr ⟨hended, hlater⟩
  | halted hhalted => exact hhalted.elim

/-- Once a creation has succeeded no other follows for its cell. -/
theorem once (h : Tells False journal creations)
    (hturns : ∀ slot, ∃ cell cell', Cell.Turns slot cell journal cell') :
    creations.Pairwise fun creation later => creation.Succeeds → later.slot ≠ creation.slot := by
  induction h with
  | nothing => exact .nil
  | called _ ih =>
    refine ih fun slot => ?_
    obtain ⟨cell, cell', hslot⟩ := hturns slot
    cases hslot with
    | other _ hrest => exact ⟨cell, cell', hrest⟩
  | @created creation outcome inner rest nested later hcomes hinner hrest ihinner ihrest =>
    -- How a cell changes while the value is being made, and after that.
    have hparts (slot : Slot) : (∃ cell between, Cell.Turns slot cell inner between) ∧
        ∃ left cell', Cell.Turns slot left rest cell' := by
      obtain ⟨cell, cell', hslot⟩ := hturns slot
      cases hslot with
      | other _ hslot | begun hslot =>
        obtain ⟨between, hduring, hends⟩ := hslot.split
        cases hends with
        | other _ hafter | ended _ hafter => exact ⟨⟨_, _, hduring⟩, _, cell', hafter⟩
    refine List.pairwise_cons.mpr ⟨fun other hother hsucceeds hsame => ?_, List.pairwise_append.mpr
      ⟨ihinner fun slot => (hparts slot).1, ihrest fun slot => (hparts slot).2, ?_⟩⟩
    · -- The cell is taken as long as the creation lasts, and has its value from then on.
      obtain ⟨cell, cell', hslot⟩ := hturns creation.slot
      cases hslot with
      | other hmoment _ => exact hmoment rfl
      | begun hslot =>
        obtain ⟨between, hduring, hends⟩ := hslot.split
        obtain ⟨object, hobject⟩ := hsucceeds
        obtain rfl := hcomes.unique hobject
        rcases List.mem_append.mp hother with hnested | hlater
        · exact (hinner.quiet_of_creating hduring).2 _ (hinner.begun_mem hnested) hsame
        · cases hends with
          | other hmoment _ => exact hmoment rfl
          | ended _ hafter => exact hafter.of_ready.2 _ (hrest.begun_mem hlater) hsame
    · -- One that is nested has ended by the time that the creation ends, and its cell has its value as well.
      rintro early hearly late hlate ⟨object, hobject⟩ hsame
      obtain ⟨outcome', hcomes', hended⟩ := hinner.exists_outcome hearly
      obtain rfl := hcomes'.unique hobject
      obtain ⟨before, after, rfl⟩ := List.append_of_mem hended
      obtain ⟨cell, cell', hslot⟩ := hturns early.slot
      have hjournal : .begun creation.slot :: (before ++ .ended early.slot (.ready object) :: after ++
          .ended creation.slot (.after outcome) :: rest) = (.begun creation.slot :: before) ++
            .ended early.slot (.ready object) :: (after ++ .ended creation.slot (.after outcome) :: rest) := by simp
      rw [Cell.after, hjournal] at hslot
      refine hslot.quiet_after _ (List.mem_append_right _ (List.mem_cons_of_mem _ (hrest.begun_mem hlate))) hsame
  | halted hhalted => exact hhalted.elim

end Moment.Tells

/-! ### What a run makes -/

section Runs

variable [Hashed V] {answer : Call V → World V E → Run V E (Reply V)}
  {record : Call V → World V E → List (Moment V E)} {begins : Call V → World V E → List (Creation V E)}
  {context : Context V} {w : World V E}

variable (answer record begins) in
/-- A task leaves behind what tells of some creations, from a world on. -/
def Task.Tells (task : Task V E α) (w : World V E) (creations : List (Creation V E)) : Prop :=
  Moment.Tells (task.run answer w).Halts (task.journal answer record w) creations

/-- A task followed by another leaves behind what tells of the creations of the first and then the second. -/
theorem Task.Tells.bind {task : Task V E α} {f : α → Task V E β} {creations : List (Creation V E)}
    {list : α → World V E → List (Creation V E)} (h : task.Tells answer record w creations)
    (hf : ∀ result w', (f result).Tells answer record w' (list result w')) :
    (task.bind f).Tells answer record w (creations ++ (task.run answer w).onEnd list) := by
  unfold Task.Tells at *
  rw [Task.journal_bind, Task.run_bind]
  cases hrun : task.run answer w with
  | error halt =>
    simp only [Run.onEnd, List.append_nil]
    exact h.mono fun _ => Run.halts_error halt
  | ok pair =>
    rw [hrun] at h
    exact (h.mono fun hhalts => hhalts pair rfl).append (hf pair.1 pair.2)

/-- So does a call and what goes on with the reply. -/
theorem Task.tells_call {request : Call V} {next : Reply V → Task V E α}
    {list : Reply V → World V E → List (Creation V E)}
    (h : Moment.Tells (answer request w).Halts (record request w) (begins request w))
    (hnext : ∀ reply w', (next reply).Tells answer record w' (list reply w')) :
    (Task.call request next).Tells answer record w (begins request w ++ (answer request w).onEnd list) := by
  unfold Task.Tells Task.run Task.journal
  cases hreply : answer request w with
  | error halt =>
    simp only [Run.onEnd, List.append_nil]
    exact h.mono fun _ => Run.halts_error halt
  | ok pair =>
    rw [hreply] at h
    exact (h.mono fun hhalts => hhalts pair rfl).append (hnext pair.1 pair.2)

end Runs

/-- A definition leaves behind what its program does. -/
theorem Stored.create_journal (stored : Stored V E) (context : Context V)
    (answer : Call V → World V E → Run V E (Reply V)) (record : Call V → World V E → List (Moment V E))
    (w : World V E) : (stored.create context).journal answer record w =
      ((stored.binding.definition context).toTask context).journal answer record w :=
  Task.journal_bind_acts fun _ => trivial

section Programs

variable [Hashed V] {depth : Nat} {record : Call V → World V E → List (Moment V E)}
  {begins : Call V → World V E → List (Creation V E)} {context : Context V} {w : World V E}

/-- The making of a value, from where it begins to where its program has come to an outcome, and what the program
leads to meanwhile. -/
theorem Creation.tells (creation : Creation V E) {moments : List (Moment V E)} {nested : List (Creation V E)}
    (h : Moment.Tells (creation.world.run depth (creation.program.toTask creation.context)).Halts moments nested) :
    Moment.Tells (creation.world.run depth (creation.program.toTask creation.context)).Halts
      (.begun creation.slot :: (moments ++
        (creation.world.run depth (creation.program.toTask creation.context)).onEnd fun outcome _ =>
          [.ended creation.slot (.after outcome)])) (creation :: nested) := by
  cases hrun : creation.world.run depth (creation.program.toTask creation.context) with
  | error halt =>
    rw [hrun] at h
    simp only [Run.onEnd, List.append_nil]
    exact .halted (Run.halts_error _) h
  | ok pair =>
    rw [hrun] at h
    have hcreated := Moment.Tells.created ⟨depth, pair.2, hrun⟩ (h.mono fun hhalts => hhalts pair rfl) .nothing
    rw [List.append_nil] at hcreated
    exact hcreated.mono False.elim

/-- Whoever asks for a value that is kept makes it if it is not there. -/
theorem Program.keep_tells {program : Program V E} (slot : Slot)
    (h : ∀ w, (program.toTask context).Tells (Call.answer depth) record w
      (program.creations (Call.answer depth) begins context w)) :
    (Task.keep slot context ((program.toTask context).bind fun outcome =>
      .done (outcome.mapError DefinitionError.toResolveError))).Tells (Call.answer depth) record w
        ((w.creation? slot context program).elim [] fun creation =>
          creation :: program.creations (Call.answer depth) begins context creation.world) := by
  unfold Task.Tells Task.keep Task.run Task.journal World.creation?
  cases hcell : w.cells slot with
  | ready object => exact .nothing
  | creating creator =>
    dsimp only
    split <;> exact .nothing
  | empty =>
    have hmaking := Creation.tells ⟨slot, context, program, w.opened slot context⟩ (h (w.opened slot context))
    change Moment.Tells (Run.Halts (Task.run _ (Task.bind (Task.bind _ _) _) (w.opened slot context)))
      (.begun slot :: Task.journal _ _ (Task.bind (Task.bind _ _) _) (w.opened slot context)) (_ :: _)
    rw [Task.bind_assoc, Task.run_bind, Task.journal_bind]
    change Moment.Tells (Run.Halts (Task.run _ (program.toTask context) _)) (.begun slot :: (_ ++ Run.onEnd
      (Task.run _ (program.toTask context) _) _)) (_ :: _) at hmaking
    cases hrun : (program.toTask context).run (Call.answer depth) (w.opened slot context) with
    | error halt =>
      rw [hrun] at hmaking
      exact hmaking.mono fun _ => Run.halts_error halt
    | ok pair =>
      rw [hrun] at hmaking
      obtain ⟨outcome, made⟩ := pair
      have hends := hmaking.mono fun hhalts => hhalts _ rfl
      cases outcome with
      | ok object => exact hends.mono False.elim
      | error e => exact hends.mono False.elim

/-- What a program leaves behind tells of what is made while it runs, if what calls leave behind does. -/
theorem Program.tells
    (h : ∀ request w, Moment.Tells (Call.answer depth request w).Halts (record request w) (begins request w))
    (program : Program V E) (w : World V E) : (program.toTask context).Tells (Call.answer depth) record w
      (program.creations (Call.answer depth) begins context w) := by
  induction program generalizing w with
  | done outcome => exact .nothing
  | request key parameters next ih => exact Task.tells_call (h _ _) ih
  | start c key parameters next ih => exact Task.tells_call (h _ _) ih
  | forward owner key next ih =>
    unfold creations toTask Task.Tells Task.run Task.journal
    dsimp only [id]
    split
    · exact Task.tells_call (h _ _) fun reply => ih _
    · exact ih _ w
  | share entry body next ihbody ih => exact (keep_tells (.shared entry) ihbody).bind ih
  | make type value next ih => exact ih _ _
  | touch change next ih => exact ih _ _
  | report event next ih => exact ih _
  | meet gate next ih => exact ih w

/-- A value that is obtained has been made by the definition that is run for it. -/
theorem Stored.exists_created {stored : Stored V E} {visit : Visit V E} (hvisit : stored.visit? context w = some visit)
    {answer : Call V → World V E → Run V E (Reply V)} {after : Except ResolveError (Object V) × World V E}
    (hobtain : (stored.obtain context).run answer w = .ok after) :
    ∃ made, ((stored.binding.definition context).toTask context).run answer visit.world = .ok made := by
  obtain ⟨-, hworld, hsame⟩ | ⟨slot, u, -, -, hempty, hworld, hsame⟩ := obtain_of_visit? hvisit <;>
    rw [hsame] at hobtain
  · obtain ⟨outcome, made, hrun, -⟩ := Task.run_bind_eq_ok hobtain
    exact ⟨_, hworld ▸ hrun⟩
  · simp only [Task.keep, Task.run, hempty, Task.run_emit] at hobtain
    obtain ⟨result, between, hcreate, -⟩ := Task.run_bind_eq_ok hobtain
    obtain ⟨outcome, made, hrun, -⟩ := Task.run_bind_eq_ok hcreate
    rw [hworld]
    exact ⟨_, hrun⟩

/-- What a definition leaves behind that is run tells of what is made while it runs. -/
theorem Visit.tells
    (h : ∀ request w, Moment.Tells (Call.answer depth request w).Halts (record request w) (begins request w))
    (visit : Visit V E) : Moment.Tells
      (visit.world.run depth ((visit.stored.binding.definition visit.context).toTask visit.context)).Halts
      (visit.journal (Call.answer depth) record) (visit.creations (Call.answer depth) begins) := by
  have hprogram : ((visit.stored.binding.definition visit.context).toTask visit.context).Tells (Call.answer depth) record
      visit.world ((visit.stored.binding.definition visit.context).creations (Call.answer depth) begins visit.context
        visit.world) := Program.tells h _ visit.world
  unfold journal creations
  dsimp only
  rw [Stored.create_journal]
  cases hslot : visit.stored.slot? visit.context with
  | none => exact hprogram
  | some slot =>
    have hmaking :=
      Creation.tells ⟨slot, visit.context, visit.stored.binding.definition visit.context, visit.world⟩ hprogram
    dsimp only [World.run] at hmaking ⊢
    cases hrun : ((visit.stored.binding.definition visit.context).toTask visit.context).run (Call.answer depth)
        visit.world with
    | error halt =>
      have hcreated : (visit.stored.create visit.context).run (Call.answer depth) visit.world = .error halt := by
        rw [Stored.create]
        exact (Task.run_bind _ _ _).trans (by rw [hrun]; rfl)
      rw [hrun] at hmaking
      rw [hcreated]
      exact hmaking
    | ok pair =>
      obtain ⟨outcome, made⟩ := pair
      rw [hrun] at hmaking
      rw [Stored.create_run hrun]
      cases outcome <;> exact hmaking

end Programs

section Calls

variable [Hashed V] {depth : Nat} {request : Call V} {w : World V E}

/-- What a call leaves behind tells of what is made while it is answered, whether it is answered or halts. -/
theorem Call.tells (depth : Nat) (request : Call V) (w : World V E) :
    Moment.Tells (Call.answer depth request w).Halts (Call.journal depth request w) (Call.creations depth request w) := by
  induction depth generalizing request w with
  | zero => exact .nothing
  | succ depth ih =>
    unfold Call.creations Call.journal
    rw [Call.body_journal]
    cases hvisit : request.visit? w with
    | none => exact .called .nothing
    | some visit =>
      refine .called ((visit.tells ih).mono fun hhalts after hanswer => ?_)
      obtain ⟨u, finish, hobtains, -, hbody, -⟩ := Call.body_of_visit? hvisit
      have hrun : ((visit.stored.obtain visit.context).bind finish).run (Call.answer depth) u = .ok after :=
        (hbody _).symm.trans hanswer
      obtain ⟨result, between, hobtain, -⟩ := Task.run_bind_eq_ok hrun
      obtain ⟨made, hmade⟩ := Stored.exists_created hobtains hobtain
      exact hhalts made hmade

/-- So does a top-level query. -/
theorem Query.tells (q : Query V) (c : ComponentId) (depth : Nat) (w : World V E) :
    Moment.Tells (w.run depth (q.task c)).Halts (w.journal depth (q.task c)) (w.creations depth q c) := by
  rw [q.journal_task]
  refine (Call.tells depth (q.call c w) w.entered).mono fun hhalts after hrun => ?_
  obtain ⟨given, hanswer, -⟩ := Query.answer_of_run hrun
  exact hhalts _ hanswer

/-- If the query comes to a reply, everything that is made meanwhile comes to an end. -/
theorem Query.tells_of_run {q : Query V} {c : ComponentId} {depth : Nat} {w w' : World V E} {reply : Reply V}
    (hrun : w.run depth (q.task c) = .ok (reply, w')) :
    Moment.Tells False (w.journal depth (q.task c)) (w.creations depth q c) :=
  (q.tells c depth w).mono fun hhalts => hhalts _ hrun

/-- Nothing is made in a cell that nothing happens to. -/
theorem Query.creations_ne {q : Query V} {c : ComponentId} {depth : Nat} {w : World V E} {slot : Slot}
    (hquiet : ∀ moment ∈ w.journal depth (q.task c), ¬ moment.Concerns slot) :
    ∀ creation ∈ w.creations depth q c, creation.slot ≠ slot :=
  fun _ hmem hsame => hquiet _ ((q.tells c depth w).begun_mem hmem) hsame

/-- What a request makes that runs a definition is what the definition's visit makes. -/
theorem World.creations_of_visit {q : Query V} {c : ComponentId} {w : World V E} {visit : Visit V E}
    (hvisit : (q.call c w).visit? w.entered = some visit) (depth : Nat) :
    w.creations (depth + 1) q c = visit.creations (Call.answer depth) (Call.creations depth) := by
  rw [World.creations, Call.creations, hvisit, Option.elim_some]

end Calls

/-! ### What creations belong to -/

/-- The creation is that of a value which the program shares when it is called in a context. -/
def Program.Shares (creation : Creation V E) (context : Context V) : Program V E → Prop
  | .done _ => False
  | .request _ _ next => ∃ reply, (next reply).Shares creation context
  | .start _ _ _ next => ∃ reply, (next reply).Shares creation context
  | .forward _ _ next => ∃ reply, (next reply).Shares creation context
  | .share entry body next =>
    (∃ w, creation = ⟨.shared entry, context, body, w⟩) ∨ body.Shares creation context ∨
      ∃ reply, (next reply).Shares creation context
  | .make _ _ next => ∃ object, (next object).Shares creation context
  | .touch _ next => ∃ before, (next before).Shares creation context
  | .report _ next => next.Shares creation context
  | .meet _ next => next.Shares creation context

/-- The creation is that of the value which a definition is run for, or of one that the definition shares. -/
inductive Visit.Begins [Hashed V] (visit : Visit V E) : Creation V E → Prop
  | kept {slot : Slot} : visit.stored.slot? visit.context = some slot →
      Begins visit ⟨slot, visit.context, visit.stored.binding.definition visit.context, visit.world⟩
  | shared {creation : Creation V E} :
      (visit.stored.binding.definition visit.context).Shares creation visit.context → Begins visit creation

section Visits

variable [Hashed V] {answer : Call V → World V E → Run V E (Reply V)}
  {begins : Call V → World V E → List (Creation V E)} {visit : Visit V E}

/-- The value of a binding that is kept is made by the definition that is run for it. -/
theorem Visit.kept_mem {slot : Slot} (hslot : visit.stored.slot? visit.context = some slot) :
    ⟨slot, visit.context, visit.stored.binding.definition visit.context, visit.world⟩ ∈
      visit.creations answer begins := by
  unfold creations
  rw [hslot]
  exact List.mem_cons_self

/-- What a definition makes is part of what its visit makes. -/
theorem Visit.nested_subset (visit : Visit V E) (answer : Call V → World V E → Run V E (Reply V))
    (begins : Call V → World V E → List (Creation V E)) :
    (visit.stored.binding.definition visit.context).creations answer begins visit.context visit.world ⊆
      visit.creations answer begins := by
  unfold creations
  dsimp only
  split
  · exact List.Subset.refl _
  · exact List.subset_cons_self _ _

/-- A definition that shares a value makes it, if it is not there. -/
theorem Visit.share_mem {entry : EntryId} {body : Program V E} {next : Except ResolveError (Object V) → Program V E}
    (hprogram : visit.stored.binding.definition visit.context = .share entry body next)
    (hempty : visit.world.cells (.shared entry) = .empty) :
    ⟨.shared entry, visit.context, body, visit.world.opened (.shared entry) visit.context⟩ ∈
      visit.creations answer begins := by
  apply visit.nested_subset
  rw [hprogram, Program.creations, World.creation?, hempty]
  exact List.mem_append_left _ List.mem_cons_self

/-- A definition that passes the request on makes what the call there makes, if the component is alive. -/
theorem Visit.forward_subset {owner : ComponentId} {key : Key}
    {next : Except ResolveError (Object V) → Program V E}
    (hprogram : visit.stored.binding.definition visit.context = .forward owner key next)
    (halive : visit.world.isAlive owner = true) :
    begins (.obtain owner key { visit.context with component := owner }) visit.world ⊆ visit.creations answer begins := by
  refine List.Subset.trans ?_ (visit.nested_subset _ _)
  rw [hprogram, Program.creations, if_pos halive]
  exact List.subset_append_left _ _

end Visits

section Origins

variable {answer : Call V → World V E → Run V E (Reply V)} {record : Call V → World V E → List (Moment V E)}
  {begins : Call V → World V E → List (Creation V E)} {context : Context V} {w : World V E} {creation : Creation V E}

variable (record begins) in
/-- The creation is one of a call whose journal is part of a journal. -/
def Creation.Nested (creation : Creation V E) (journal : List (Moment V E)) : Prop :=
  ∃ request v, creation ∈ begins request v ∧ record request v ⊆ journal

/-- What is nested within a part of a journal is nested within the whole. -/
theorem Creation.Nested.mono {journal journal' : List (Moment V E)} (h : creation.Nested record begins journal)
    (hsubset : journal ⊆ journal') : creation.Nested record begins journal' := by
  obtain ⟨request, v, hmem, hrecord⟩ := h
  exact ⟨request, v, hmem, List.Subset.trans hrecord hsubset⟩

/-- What begins to be made within a call and what follows it does so within the call or later. -/
theorem Creation.of_call {request : Call V} {next : Reply V → Task V E α} {P : Reply V → Prop}
    {list : Reply V → World V E → List (Creation V E)}
    (hnext : ∀ reply w', creation ∈ list reply w' →
      creation.Nested record begins ((next reply).journal answer record w') ∨ P reply)
    (hmem : creation ∈ begins request w ++ (answer request w).onEnd list) :
    creation.Nested record begins ((Task.call request next).journal answer record w) ∨ ∃ reply, P reply := by
  unfold Task.journal
  rcases List.mem_append.mp hmem with hnow | hlater
  · exact .inl ⟨request, w, hnow, List.subset_append_left _ _⟩
  · cases hreply : answer request w with
    | error halt => simp [hreply, Run.onEnd] at hlater
    | ok pair =>
      rw [hreply] at hlater
      exact (hnext pair.1 pair.2 hlater).imp (fun h => h.mono (List.subset_append_right _ _)) fun h => ⟨_, h⟩

/-- What makes a value that is kept leaves behind what its program does. -/
theorem Task.keep_journal_subset {slot : Slot} {program : Program V E} (hempty : w.cells slot = .empty) :
    (program.toTask context).journal answer record (w.opened slot context) ⊆
      (Task.keep slot context ((program.toTask context).bind fun outcome =>
        .done (outcome.mapError DefinitionError.toResolveError))).journal answer record w := by
  unfold Task.keep
  rw [Task.journal, hempty]
  simp only [Task.journal_emit]
  refine List.Subset.trans ?_ (List.subset_cons_self _ _)
  change _ ⊆ Task.journal _ _ (Task.bind (Task.bind _ _) _) (w.opened slot context)
  rw [Task.bind_assoc, Task.journal_bind]
  exact List.subset_append_left _ _

/-- What is made while a program runs is made within the calls that it makes, or is shared by the program itself. -/
theorem Program.creations_mem {program : Program V E}
    (hmem : creation ∈ program.creations answer begins context w) :
    creation.Nested record begins ((program.toTask context).journal answer record w) ∨
      program.Shares creation context := by
  induction program generalizing w with
  | done outcome => cases hmem
  | request key parameters next ih => exact Creation.of_call (fun reply w' => ih reply) hmem
  | start c key parameters next ih => exact Creation.of_call (fun reply w' => ih reply) hmem
  | forward owner key next ih =>
    unfold creations at hmem
    unfold toTask Task.journal
    dsimp only [id]
    split at hmem
    · next halive =>
      rw [if_pos halive]
      have hnext (reply : Reply V) (w' : World V E) := ih (Dependency.present key reply) (w := w')
      refine (Creation.of_call (P := fun reply => (next (Dependency.present key reply)).Shares creation context)
        hnext hmem).imp id ?_
      rintro ⟨reply, h⟩
      exact ⟨_, h⟩
    · next hdropped =>
      rw [if_neg hdropped]
      exact (ih _ hmem).imp id fun h => ⟨_, h⟩
  | share entry body next ihbody ih =>
    unfold toTask
    rw [Task.journal_bind]
    rcases List.mem_append.mp hmem with hnow | hlater
    · unfold World.creation? at hnow
      cases hcell : w.cells (.shared entry) with
      | ready object => simp [hcell] at hnow
      | creating creator => simp [hcell] at hnow
      | empty =>
        simp only [hcell, Option.elim_some] at hnow
        rcases List.mem_cons.mp hnow with rfl | hnested
        · exact .inr (.inl ⟨_, rfl⟩)
        · refine (ihbody hnested).imp (fun h => h.mono ?_) fun h => .inr (.inl h)
          refine List.Subset.trans ?_ (List.subset_append_left _ _)
          exact Task.keep_journal_subset hcell
    · cases hkept : (Task.keep (.shared entry) context ((body.toTask context).bind fun outcome =>
          .done (outcome.mapError DefinitionError.toResolveError))).run answer w with
      | error halt => simp [hkept, Run.onEnd] at hlater
      | ok pair =>
        rw [hkept] at hlater
        exact (ih _ hlater).imp (fun h => h.mono (List.subset_append_right _ _)) fun h => .inr (.inr ⟨_, h⟩)
  | make type value next ih => exact (ih _ hmem).imp id fun h => ⟨_, h⟩
  | touch change next ih => exact (ih _ hmem).imp id fun h => ⟨_, h⟩
  | report event next ih => exact ih hmem
  | meet gate next ih => exact ih hmem

/-- What is made while a definition runs for a visit is made within the calls that the visit leads to, or belongs to
the visit. -/
theorem Visit.creations_mem [Hashed V] {visit : Visit V E} (hmem : creation ∈ visit.creations answer begins) :
    creation.Nested record begins (visit.journal answer record) ∨ visit.Begins creation := by
  have hprogram (hnested : creation ∈ (visit.stored.binding.definition visit.context).creations answer begins
      visit.context visit.world) :
      creation.Nested record begins (visit.journal answer record) ∨ visit.Begins creation := by
    refine (Program.creations_mem hnested).imp (fun h => h.mono ?_) .shared
    rw [← Stored.create_journal]
    exact visit.creation_subset _ _
  unfold creations at hmem
  dsimp only at hmem
  split at hmem
  · exact hprogram hmem
  · next slot hslot =>
    rcases List.mem_cons.mp hmem with rfl | hnested
    · exact .inr (.kept hslot)
    · exact hprogram hnested

/-- Whatever is made while a call is answered belongs to a definition that is run for one of the calls taken up. -/
theorem Call.exists_visit_of_creation [Hashed V] {depth : Nat} {outer : Call V} {u : World V E}
    (hmem : creation ∈ Call.creations depth outer u) :
    ∃ request v visit, .called request v ∈ Call.journal depth outer u ∧ request.visit? v = some visit ∧
      visit.Begins creation := by
  induction depth generalizing outer u with
  | zero => cases hmem
  | succ depth ih =>
    unfold Call.creations at hmem
    cases hvisit : outer.visit? u with
    | none => simp [hvisit] at hmem
    | some visit =>
      rw [hvisit] at hmem
      rcases Visit.creations_mem hmem with ⟨request, v, hnested, hsubset⟩ | hbegins
      · obtain ⟨inner, t, found, hcalled, hrest⟩ := ih hnested
        refine ⟨inner, t, found, List.mem_cons_of_mem _ ?_, hrest⟩
        rw [Call.body_journal, hvisit]
        exact hsubset hcalled
      · exact ⟨outer, u, visit, List.mem_cons_self, hvisit, hbegins⟩

/-- So does what is made while a top-level query is answered. -/
theorem Query.exists_visit_of_creation [Hashed V] {q : Query V} {c : ComponentId} {depth : Nat}
    (hmem : creation ∈ w.creations depth q c) :
    ∃ request v visit, .called request v ∈ w.journal depth (q.task c) ∧ request.visit? v = some visit ∧
      visit.Begins creation := by
  rw [q.journal_task]
  exact Call.exists_visit_of_creation hmem

end Origins

end Injection

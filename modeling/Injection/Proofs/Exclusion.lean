import Injection.Proofs.Progression
import Mathlib.Data.List.Nodup

/-!
# Values are made at most once

A value is made without holding its cell, so nothing but the state of the cell keeps others from
making it too. The state is tied to the threads by an invariant: whoever is making a value finds
its cell in the state of being made, and no two threads are making the same value. What a thread
is making is in turn tied to its task, which settles the cells it is given in reverse order.
-/

namespace Injection

variable {V E α : Type}

/-- What a call that has been told to make a value does with what its attempt has come to. -/
def Task.conclude (slot : Slot) (context : Context V) :
    Except ResolveError (Object V) → Task V E (Except ResolveError (Object V))
  | .ok object =>
    .settle slot (.ready object) <| .notify slot do
      emit context.resolution .cached
      return .ok object
  | .error e => .settle slot .empty <| .notify slot <| return .error e

namespace Machine

variable {m m' : Machine V E α} {i j : Nat} {thread : Thread V E α} {slot : Slot}

/-- What is true at all times of threads that settle what they are given. -/
structure Orderly (m : Machine V E α) : Prop where
  /-- Threads keep the rules and end with nothing left to settle. -/
  follows : ∀ {i : Nat} {thread : Thread V E α}, m.threads[i]? = some thread →
    thread.task.Follows .lax (fun _ left => left = []) thread.making
  /-- Whoever stands with a cell is asking for it. -/
  asking : ∀ {i : Nat} {thread : Thread V E α} {slot}, m.threads[i]? = some thread → thread.phase.asked? = some slot →
    ∃ resolution next, thread.task = .acquire slot resolution next
  /-- The value of a cell that somebody is making is being made. -/
  creating : ∀ {i slot}, m.Makes i slot → ∃ r, m.world.cells slot = .creating r
  /-- Nobody else is making the value. -/
  exclusive : ∀ {i j slot}, m.Makes i slot → m.Makes j slot → i = j
  /-- Nobody is making the value twice. -/
  distinct : ∀ {i : Nat} {thread : Thread V E α}, m.threads[i]? = some thread → thread.making.Nodup

variable [Hashed V]

omit [Hashed V] in
/-- A thread stands only with the cell that it is asking for. -/
theorem Turn.asking {thread' : Thread V E α} {w : World V E} (h : m.Turn thread thread' w)
    (hasked : thread'.phase.asked? = some slot) :
    ∃ resolution next, thread'.task = .acquire slot resolution next := by
  cases h with
  | runs hbefore hafter hwaiting => simp [hafter, Phase.asked?] at hasked
  | _ htask =>
    subst thread'
    obtain rfl := Option.some.inj hasked
    exact ⟨_, _, htask⟩

omit [Hashed V] in
/-- Threads that are about to begin and settle what they are given. -/
theorem orderly_start (w : World V E) (opened : List String) (tasks : List (Task V E α))
    (htasks : ∀ task ∈ tasks, task.Follows .lax (fun _ left => left = []) []) :
    (start w opened tasks).Orderly := by
  have hnew {i : Nat} {thread : Thread V E α}
      (hthread : (start w opened tasks).threads[i]? = some thread) :
      ∃ task ∈ tasks, thread = ⟨task, .running, []⟩ := by
    simp only [start, List.getElem?_map, Option.map_eq_some_iff] at hthread
    obtain ⟨task, htask, rfl⟩ := hthread
    exact ⟨task, List.mem_of_getElem? htask, rfl⟩
  have hnobody (i : Nat) (slot : Slot) : ¬ (start w opened tasks).Makes i slot := by
    rintro ⟨thread, hthread, hslot⟩
    obtain ⟨task, -, rfl⟩ := hnew hthread
    simp at hslot
  refine ⟨?_, ?_, ?_, ?_, ?_⟩
  · intro i thread hthread
    obtain ⟨task, htask, rfl⟩ := hnew hthread
    exact htasks task htask
  · intro i thread slot hthread hasked
    obtain ⟨task, -, rfl⟩ := hnew hthread
    simp [Phase.asked?] at hasked
  · exact fun hmakes => absurd hmakes (hnobody _ _)
  · exact fun hmakes => absurd hmakes (hnobody _ _)
  · intro i thread hthread
    obtain ⟨task, -, rfl⟩ := hnew hthread
    exact List.nodup_nil

namespace Orderly

variable (h : m.Orderly)
include h

omit [Hashed V] in
/-- A thread in a phase in which it stands with a cell is asking for it. -/
theorem asking_of_phase (hthread : m.threads[i]? = some thread) {phase : Phase}
    (hphase : thread.phase = phase) (hasked : phase.asked? = some slot) :
    ∃ resolution next, thread.task = .acquire slot resolution next :=
  h.asking hthread (hphase ▸ hasked)

omit [Hashed V] in
/-- A thread that settles a cell was making its value. -/
theorem makes_of_settle (hthread : m.threads[i]? = some thread) {cell : Cell V}
    {next : Task V E α} (htask : thread.task = .settle slot cell next) : m.Makes i slot := by
  have hfollows := h.follows hthread
  rw [htask] at hfollows
  obtain ⟨-, -, rest, hmaking, -⟩ := hfollows
  exact ⟨thread, hthread, hmaking ▸ List.mem_cons_self⟩

omit [Hashed V] in
/-- Nobody is making a value unless the cell says so. -/
theorem not_makes (hcell : ∀ r, m.world.cells slot ≠ .creating r) : ¬ m.Makes i slot := by
  intro hmakes
  obtain ⟨r, hcreating⟩ := h.creating hmakes
  exact hcell r hcreating

/-- How a move changes the cells and who makes values for them. -/
theorem mover (hthread : m.threads[i]? = some thread) (heffect : m.Effect i thread m') :
    ∃ thread', m'.threads[i]? = some thread' ∧
      thread'.task.Follows .lax (fun _ left => left = []) thread'.making ∧
      m.Transfer thread thread' m'.world ∧ m.Turn thread thread' m'.world := by
  obtain ⟨thread', hthread', -, -, hfollows, htransfer, hturn⟩ :=
    heffect.mover Conduct.lawful_lax hthread trivial (fun _ => h.asking hthread) (h.follows hthread)
  exact ⟨thread', hthread', hfollows, htransfer, hturn⟩

/-- Whoever is making a value after a move was making it before or has just begun. -/
theorem makes_before (hthread : m.threads[i]? = some thread) (heffect : m.Effect i thread m')
    (hmakes : m'.Makes j slot) :
    m.Makes j slot ∧ m'.world.cells slot = m.world.cells slot ∨
      j = i ∧ m.world.cells slot = .empty ∧ ∃ r, m'.world.cells slot = .creating r := by
  obtain ⟨thread', hthread', -, htransfer, -⟩ := h.mover hthread heffect
  have hbefore : m.Makes j slot ∨ j = i ∧ slot ∈ thread'.making := by
    by_cases hij : i = j
    · exact Or.inr ⟨hij.symm, (makes_iff (hij ▸ hthread') slot).mp hmakes⟩
    · exact Or.inl ((heffect.makes_other hij slot).mp hmakes)
  cases htransfer with
  | neither hcells hmaking =>
    refine Or.inl ⟨?_, by rw [hcells]⟩
    rcases hbefore with hbefore | ⟨rfl, hslot⟩
    · exact hbefore
    · exact (makes_iff hthread slot).mpr (hmaking ▸ hslot)
  | @begins begun resolution next htask hempty hcells hmaking =>
    by_cases hslot : slot = begun
    · subst hslot
      refine Or.inr ⟨?_, hempty, ⟨resolution.number, by simp [hcells, World.setCell]⟩⟩
      rcases hbefore with hbefore | ⟨hji, -⟩
      · exact absurd hbefore (h.not_makes (by simp [hempty]))
      · exact hji
    · refine Or.inl ⟨?_, by simp [hcells, World.setCell, hslot]⟩
      rcases hbefore with hbefore | ⟨rfl, hmem⟩
      · exact hbefore
      · rw [hmaking] at hmem
        exact (makes_iff hthread slot).mpr ((List.mem_cons.mp hmem).resolve_left hslot)
  | @ends settled cell hfree hcell hcells hmaking hannounces =>
    have hdistinct := h.distinct hthread
    rw [hmaking, List.nodup_cons] at hdistinct
    have hmaker : m.Makes i settled := ⟨thread, hthread, hmaking ▸ List.mem_cons_self⟩
    have hmakes' : m.Makes j slot ∧ slot ≠ settled := by
      by_cases hij : i = j
      · subst hij
        have hmem := (makes_iff hthread' slot).mp hmakes
        refine ⟨(makes_iff hthread slot).mpr (hmaking ▸ List.mem_cons_of_mem _ hmem), ?_⟩
        exact fun heq => hdistinct.1 (heq ▸ hmem)
      · have hother := (heffect.makes_other hij slot).mp hmakes
        exact ⟨hother, fun heq => hij (h.exclusive hmaker (heq ▸ hother))⟩
    exact Or.inl ⟨hmakes'.1, by simp [hcells, World.setCell, hmakes'.2]⟩

/-- A move leaves threads orderly. -/
theorem effect (hthread : m.threads[i]? = some thread) (heffect : m.Effect i thread m') :
    m'.Orderly := by
  obtain ⟨thread', hthread', hfollows, htransfer, hturn⟩ := h.mover hthread heffect
  refine ⟨?_, ?_, ?_, ?_, ?_⟩
  · intro j other hother
    by_cases hij : i = j
    · subst hij
      exact Option.some.inj (hthread'.symm.trans hother) ▸ hfollows
    · obtain ⟨before, hbefore, rfl | ⟨announced, -, rfl⟩⟩ := heffect.other_before hij hother
      · exact h.follows hbefore
      · rw [roused_task, roused_making]
        exact h.follows hbefore
  · intro j other slot hother hasked
    by_cases hij : i = j
    · subst hij
      obtain rfl := Option.some.inj (hthread'.symm.trans hother)
      exact hturn.asking hasked
    · obtain ⟨before, hbefore, rfl | ⟨announced, -, rfl⟩⟩ := heffect.other_before hij hother
      · exact h.asking hbefore hasked
      · rw [roused_task]
        rw [roused_asked?] at hasked
        exact h.asking hbefore hasked
  · intro j slot hmakes
    rcases h.makes_before hthread heffect hmakes with ⟨hbefore, hcells⟩ | ⟨-, -, hcreating⟩
    · rw [hcells]
      exact h.creating hbefore
    · exact hcreating
  · intro j k slot hj hk
    rcases h.makes_before hthread heffect hj with ⟨hj, -⟩ | ⟨rfl, hempty, -⟩ <;>
      rcases h.makes_before hthread heffect hk with ⟨hk, -⟩ | ⟨rfl, hempty', -⟩
    · exact h.exclusive hj hk
    · exact absurd hj (h.not_makes (by simp [hempty']))
    · exact absurd hk (h.not_makes (by simp [hempty]))
    · rfl
  · intro j other hother
    by_cases hij : i = j
    · subst hij
      obtain rfl := Option.some.inj (hthread'.symm.trans hother)
      cases htransfer with
      | neither hcells hmaking => exact hmaking ▸ h.distinct hthread
      | @begins begun resolution next htask hempty hcells hmaking =>
        rw [hmaking, List.nodup_cons]
        refine ⟨fun hmem => ?_, h.distinct hthread⟩
        exact h.not_makes (by simp [hempty]) ((makes_iff hthread begun).mpr hmem)
      | ends hfree hcell hcells hmaking hannounces =>
        exact (List.nodup_cons.mp (hmaking ▸ h.distinct hthread)).2
    · obtain ⟨before, hbefore, rfl | ⟨announced, -, rfl⟩⟩ := heffect.other_before hij hother
      · exact h.distinct hbefore
      · rw [roused_making]
        exact h.distinct hbefore

/-- It stays so along every run. -/
theorem reaches (hreach : m.Reaches m') : m'.Orderly :=
  hreach.invariant (fun h hthread heffect => h.effect hthread heffect) h

omit [Hashed V] in
/-- Nobody is making a value that is there. -/
theorem not_makes_of_ready {object : Object V} (hready : m.world.cells slot = .ready object) :
    ¬ m.Makes i slot := by
  apply h.not_makes
  simp [hready]

/-- A move leaves a value that is there as it is. -/
theorem ready_effect {object : Object V} (hready : m.world.cells slot = .ready object)
    (hthread : m.threads[i]? = some thread) (heffect : m.Effect i thread m') :
    m'.world.cells slot = .ready object := by
  obtain ⟨thread', hthread', -, htransfer, -⟩ := h.mover hthread heffect
  cases htransfer with
  | neither hcells hmaking => rw [hcells, hready]
  | @begins begun resolution next htask hempty hcells hmaking =>
    have hslot : slot ≠ begun := by
      rintro rfl
      simp [hready] at hempty
    simp [hcells, World.setCell, hslot, hready]
  | @ends settled cell hfree hcell hcells hmaking hannounces =>
    have hslot : slot ≠ settled := by
      rintro rfl
      exact h.not_makes_of_ready hready ⟨thread, hthread, hmaking ▸ List.mem_cons_self⟩
    simp [hcells, World.setCell, hslot, hready]

/-- A value that is there stays as it is along every run. -/
theorem ready_reaches {object : Object V} (hready : m.world.cells slot = .ready object)
    (hreach : m.Reaches m') : m'.world.cells slot = .ready object := by
  have hboth : m'.Orderly ∧ m'.world.cells slot = .ready object :=
    hreach.invariant (P := fun m => m.Orderly ∧ m.world.cells slot = .ready object)
      (fun hm hthread heffect => ⟨hm.1.effect hthread heffect, hm.1.ready_effect hm.2 hthread heffect⟩)
      ⟨h, hready⟩
  exact hboth.2

omit [Hashed V] in
/-- Once a value is there, nobody is about to change the state of its cell. -/
theorem no_settle_of_ready {object : Object V} (hready : m.world.cells slot = .ready object)
    (hthread : m.threads[i]? = some thread) (cell : Cell V) (next : Task V E α) :
    thread.task ≠ .settle slot cell next :=
  fun htask => h.not_makes_of_ready hready (h.makes_of_settle hthread htask)

end Orderly

/-! ### What calls for a value come to -/

omit [Hashed V] in
/-- Only a value that is there is found. -/
theorem cells_of_found {resolution : Resolution} {object : Object V}
    (hthread : m.threads[i]? = some thread) (h : m.grant? i slot resolution = some (.ready object)) :
    m.world.cells slot = .ready object := by
  obtain ⟨hlook, -⟩ | ⟨hcycle, -⟩ := grant?_eq_some hthread h
  · exact World.cells_of_grant? hlook
  · simp at hcycle

/-- The step that settles a cell. -/
theorem cells_of_settle {cell : Cell V} {next : Task V E α} (hthread : m.threads[i]? = some thread)
    (htask : thread.task = .settle slot cell next) (hstep : m.step i = some m') :
    m'.world.cells slot = cell := by
  obtain ⟨task, phase, making⟩ := thread
  subst htask
  simp only [step, hthread, Option.ite_none_right_eq_some, Option.some.injEq] at hstep
  obtain ⟨-, rfl⟩ := hstep
  simp [update, World.setCell]

/-- A report comes to nothing. -/
theorem Returns.of_emit {β : Type} {resolution : Resolution} {event : Event} {f : Unit → Task V E β}
    {result : β} (h : m.Returns i ((Task.emit resolution event).bind f) result m') :
    ∃ between, m.Reaches between ∧ between.Returns i (f ()) result m' := by
  obtain ⟨_, between, hemit, hrest⟩ := h.bind
  exact ⟨between, hemit.reaches, hrest⟩

/-- A thread that settles a cell and tells everybody goes on with a cell that is settled. -/
theorem Returns.of_settle {β : Type} {cell : Cell V} {next : Task V E β} {result : β}
    (h : m.Returns i (.settle slot cell (.notify slot next)) result m') :
    ∃ after between, m.Reaches after ∧ after.world.cells slot = cell ∧ after.Reaches between ∧
      between.Returns i next result m' := by
  obtain ⟨before, after, part, hbefore, ⟨thread, hthread, rest, htask⟩, hstep, hpart, -, hafter⟩ :=
    h.first (by simp) (by simp)
  obtain rfl := Option.some.inj hpart
  obtain ⟨before', between, part, hbefore', -, hstep', hpart, -, hbetween⟩ :=
    hafter.first (by simp) (by simp)
  obtain rfl := Option.some.inj hpart
  exact ⟨after, between, hbefore.tail ⟨i, .step hstep⟩, cells_of_settle hthread htask hstep,
    hbefore'.tail ⟨i, .step hstep'⟩, hbetween⟩

/-- On the way to another machine, a thread asks for a cell and is refused. -/
def Refused (m : Machine V E α) (i : Nat) (slot : Slot) (resolution : Resolution)
    (m' : Machine V E α) : Prop :=
  ∃ (between : Machine V E α) (thread : Thread V E α) (next : Grant V → Task V E α),
    m.Reaches between ∧ between.threads[i]? = some thread ∧
      thread.task = .acquire slot resolution next ∧
      between.grant? i slot resolution = some .cycle ∧ between.Reaches m'

/-- On the way to another machine, a thread asks for a cell and finds the value. -/
def Found (m : Machine V E α) (i : Nat) (slot : Slot) (resolution : Resolution) (object : Object V)
    (m' : Machine V E α) : Prop :=
  ∃ (between : Machine V E α) (thread : Thread V E α) (next : Grant V → Task V E α),
    m.Reaches between ∧ between.threads[i]? = some thread ∧
      thread.task = .acquire slot resolution next ∧
      between.grant? i slot resolution = some (.ready object) ∧ between.Reaches m'

/-- On the way to another machine, a thread that calls for a value is granted the cell, and at that machine `create`,
which it runs then, has just come to a result. -/
def Creates (m : Machine V E α) (i : Nat) (slot : Slot) (context : Context V)
    (create : Task V E (Except ResolveError (Object V))) (result : Except ResolveError (Object V))
    (m' : Machine V E α) : Prop :=
  ∃ (before after : Machine V E α) (thread : Thread V E α)
    (rest : Except ResolveError (Object V) → Task V E α), m.Reaches before ∧
      before.threads[i]? = some thread ∧ thread.task = (Task.keep slot context create).bind rest ∧
      before.grant? i slot context.resolution = some .granted ∧ before.step i = some after ∧
      after.Returns i ((Task.emit context.resolution .notFoundInCache).bind fun _ => create) result m'

/-- A thread is about to keep an object in a cell, or it is kept there. -/
def Keeping (m : Machine V E α) (i : Nat) (slot : Slot) (object : Object V) : Prop :=
  (∃ thread next, m.threads[i]? = some thread ∧ thread.task = .settle slot (.ready object) next) ∨
    m.world.cells slot = .ready object

/-- What comes to a result has been reached. -/
theorem Creates.reaches {context : Context V} {create : Task V E (Except ResolveError (Object V))}
    {result : Except ResolveError (Object V)} (h : m.Creates i slot context create result m') : m.Reaches m' := by
  obtain ⟨before, after, thread, rest, hbefore, -, -, -, hstep, hreturns⟩ := h
  exact (hbefore.tail ⟨i, .step hstep⟩).trans hreturns.reaches

/-- What has been created is about to be kept. -/
theorem Creates.exists_settle {context : Context V} {create : Task V E (Except ResolveError (Object V))}
    {object : Object V} (h : m.Creates i slot context create (.ok object) m') :
    ∃ thread next, m'.threads[i]? = some thread ∧ thread.task = .settle slot (.ready object) next := by
  obtain ⟨before, after, thread, rest, -, hthread, htask, hgrant, hstep, -, hperforms⟩ := h
  obtain ⟨thread', hthread', hdevelop⟩ := develop_step hthread hstep
  rw [htask, Task.keep, Task.bind, develop, hgrant] at hdevelop
  have hgoes : thread'.task = (((Task.emit context.resolution .notFoundInCache).bind fun _ => create).bind
      (Task.conclude slot context)).bind rest := by
    rw [Task.bind_assoc (Task.emit context.resolution .notFoundInCache)]
    exact (Option.some.inj hdevelop).symm
  rw [Task.bind_assoc] at hgoes
  obtain ⟨last, hlast, hkeeps⟩ := hperforms.thread_task hthread' hgoes
  exact ⟨last, _, hlast, hkeeps⟩

/-- What is about to be kept is about to be kept, or is kept, after any move. -/
theorem Orderly.keeping_moves (h : m.Orderly) {object : Object V} (hkeeping : m.Keeping i slot object)
    (hmove : m.Moves j m') : m'.Keeping i slot object := by
  rcases hkeeping with ⟨thread, next, hthread, htask⟩ | hready
  · by_cases hij : i = j
    · -- The thread is not at a gate, so its move is the step that keeps the object.
      subst hij
      cases hmove with
      | step hstep => exact .inr (cells_of_settle hthread htask hstep)
      | release hother hgate _ =>
        obtain rfl := Option.some.inj (hthread.symm.trans hother)
        obtain ⟨task, phase, making⟩ := thread
        subst htask
        cases hgate
    · obtain ⟨thread', hthread', htask'⟩ := hmove.other_task hij hthread
      exact .inl ⟨thread', next, hthread', htask'.trans htask⟩
  · exact .inr (h.ready_reaches hready (.single ⟨j, hmove⟩))

/-- So it is along every run. -/
theorem Orderly.keeping_reaches (h : m.Orderly) {object : Object V} (hkeeping : m.Keeping i slot object)
    (hreach : m.Reaches m') : m'.Keeping i slot object := by
  induction hreach with
  | refl => exact hkeeping
  | tail hbefore hmove ih =>
    obtain ⟨j, hmove⟩ := hmove
    exact (h.reaches hbefore).keeping_moves ih hmove

omit [Hashed V] in
/-- From then on nobody is given the task of making the value, and there is no other. -/
theorem Orderly.not_granted (h : m.Orderly) {object : Object V} (hkeeping : m.Keeping i slot object) :
    (∀ other, m.world.cells slot = .ready other → other = object) ∧
      ∀ j resolution, m.grant? j slot resolution ≠ some .granted := by
  have hnot_empty : m.world.cells slot ≠ .empty ∧ ∀ other, m.world.cells slot = .ready other → other = object := by
    rcases hkeeping with ⟨thread, next, hthread, htask⟩ | hready
    · obtain ⟨r, hcreating⟩ := h.creating (h.makes_of_settle hthread htask)
      simp [hcreating]
    · simp [hready, eq_comm]
  refine ⟨hnot_empty.2, fun j resolution hgrant => ?_⟩
  cases hthread : m.threads[j]? with
  | none => simp [grant?, hthread] at hgrant
  | some thread =>
    obtain ⟨hlook, -⟩ | ⟨hcycle, -⟩ := grant?_eq_some hthread hgrant
    · exact hnot_empty.1 (World.cells_of_grant? hlook)
    · simp at hcycle

/-- A call answers with the value that is kept in the cell, which it has found there or created, and fails only by
being refused or by the failure of its own attempt. -/
theorem Orderly.keep_returns (h : m.Orderly) {context : Context V}
    {create : Task V E (Except ResolveError (Object V))} {reply : Except ResolveError (Object V)}
    (hreturns : m.Returns i (Task.keep slot context create) reply m') :
    (∀ object, reply = .ok object → m'.world.cells slot = .ready object ∧
      (m.Found i slot context.resolution object m' ∨
        ∃ between, m.Creates i slot context create (.ok object) between ∧ between.Reaches m')) ∧
      ∀ e, reply = .error e →
        e = .cyclicDependency context.path ∧ m.Refused i slot context.resolution m' ∨
          ∃ m₁ m₂, m.Reaches m₁ ∧ m₁.Returns i create (.error e) m₂ ∧ m₂.Reaches m' := by
  obtain ⟨before, after, part, hbefore, ⟨thread, hthread, rest, htask⟩, hstep, hpart, hchanged, hafter⟩ :=
    hreturns.first (by simp [Task.keep]) (by simp [Task.keep])
  have horderly : before.Orderly := h.reaches hbefore
  have hmove : before.Reaches after := .single ⟨i, .step hstep⟩
  simp only [Task.keep, develop] at hpart
  split at hpart
  · next grant hgrant =>
    obtain rfl := Option.some.inj hpart
    cases grant with
    | ready object =>
      obtain ⟨between, hbetween, hend⟩ := hafter.of_emit
      obtain rfl := hend.of_done
      have hready := horderly.ready_reaches (cells_of_found hthread hgrant)
        (hmove.trans (hbetween.trans hend.reaches))
      have hfound : m.Found i slot context.resolution object m' :=
        ⟨before, thread, _, hbefore, hthread, htask, hgrant, hmove.trans hafter.reaches⟩
      exact ⟨fun other hother => Except.ok.inj hother ▸ ⟨hready, .inl hfound⟩, by simp⟩
    | cycle =>
      have hrefused : m.Refused i slot context.resolution m' :=
        ⟨before, thread, _, hbefore, hthread, htask, hgrant, hmove.trans hafter.reaches⟩
      obtain ⟨between, -, hend⟩ := hafter.of_emit
      obtain rfl := hend.of_done
      exact ⟨by simp, fun e he => Or.inl ⟨(Except.error.inj he).symm, hrefused⟩⟩
    | granted =>
      -- The rest of the call is the attempt, followed by what it concludes from that.
      have hwhole : after.Returns i (((Task.emit context.resolution .notFoundInCache).bind fun _ => create).bind
          (Task.conclude slot context)) reply m' := by
        rw [Task.bind_assoc]
        exact hafter
      obtain ⟨outcome, m₂, hboth, hrest⟩ := hwhole.bind
      obtain ⟨m₁, hm₁, hcreate⟩ := hboth.of_emit
      have hreach₁ : m.Reaches m₁ := hbefore.trans (hmove.trans hm₁)
      have hcreates : m.Creates i slot context create outcome m₂ :=
        ⟨before, after, thread, rest, hbefore, hthread, htask, hgrant, hstep, hboth⟩
      cases outcome with
      | ok object =>
        obtain ⟨settled, between, hsettled, hready, hbetween, hlast⟩ := hrest.of_settle
        obtain ⟨reported, hreported, hend⟩ := hlast.of_emit
        obtain rfl := hend.of_done
        have horderly' : settled.Orderly := h.reaches (hreach₁.trans (hcreate.reaches.trans hsettled))
        have hready' := horderly'.ready_reaches hready
          (hbetween.trans (hreported.trans hend.reaches))
        exact ⟨fun other hother => Except.ok.inj hother ▸ ⟨hready', .inr ⟨m₂, hcreates, hrest.reaches⟩⟩, by simp⟩
      | error e =>
        obtain ⟨settled, between, -, -, -, hend⟩ := hrest.of_settle
        obtain rfl := hend.of_done
        refine ⟨by simp, fun other hother => Or.inr ⟨m₁, m₂, hreach₁, ?_, hrest.reaches⟩⟩
        exact Except.error.inj hother ▸ hcreate
  · exact absurd (Option.some.inj hpart).symm hchanged

/-- A thread is granted a cell whose value nobody is making, and is making it from then on. -/
theorem Orderly.granted (h : m.Orderly) {resolution : Resolution} {next : Grant V → Task V E α}
    (hthread : m.threads[i]? = some thread) (htask : thread.task = .acquire slot resolution next)
    (hgrant : m.grant? i slot resolution = some .granted) (hstep : m.step i = some m') :
    (∀ j, ¬ m.Makes j slot) ∧ m'.Makes i slot := by
  obtain ⟨hlook, hphase⟩ | ⟨hcycle, -⟩ := grant?_eq_some hthread hgrant
  swap
  · simp at hcycle
  have hempty := World.cells_of_grant? hlook
  constructor
  · intro j
    exact h.not_makes (by simp [hempty])
  · obtain ⟨task, phase, making⟩ := thread
    subst htask
    have hinspect : m' = m.inspect i ⟨.acquire slot resolution next, phase, making⟩ slot resolution next := by
      rcases hphase with rfl | ⟨other, rfl⟩
      · simp only [step, hthread, acquire, Option.ite_none_right_eq_some, Option.some.injEq] at hstep
        exact hstep.2.symm
      · simp only [step, hthread, acquire, Option.some.injEq] at hstep
        exact hstep.symm
    simp only [inspect, hempty] at hinspect
    rw [hinspect]
    exact ⟨_, update_threads_self hthread _ _, List.mem_cons_self⟩

/-! ### Top-level requests -/

/-- Threads that make one top-level request each, at a component. -/
def racing (w : World V E) (opened : List String) (requests : List (ComponentId × Query V)) :
    Machine V E (Reply V) :=
  start w opened (requests.map fun (c, q) => q.task c)

omit [Hashed V] in
/-- A top-level request settles what it is given. -/
theorem orderly_racing (w : World V E) (opened : List String)
    (requests : List (ComponentId × Query V)) : (racing w opened requests).Orderly := by
  apply orderly_start w opened _
  intro task htask
  obtain ⟨⟨c, q⟩, -, rfl⟩ := List.mem_map.mp htask
  apply Task.Follows.bind (Task.enter_keeps c none q.key q.parameters [])
  intro reply left hleft
  exact hleft.1

/-- However any number of top-level requests take turns, and whatever the definitions do: at most
one thread at a time is making the value of a cell, from the step that it is granted the cell in to
the step that it settles the cell in; a value is kept at most once, and then stays as it is; calls
answer with that value, which they have found or created, and fail only with a cyclic dependency of
their own or with the failure of their own attempt at making the value; once an attempt has come to
an object, there is no other value, and nobody is given the task of making one again. -/
theorem made_at_most_once (w : World V E) (opened : List String)
    (requests : List (ComponentId × Query V)) {m : Machine V E (Reply V)}
    (hreach : (racing w opened requests).Reaches m) (slot : Slot) :
    ((∀ i j, m.Makes i slot → m.Makes j slot → i = j) ∧
      (∀ (i : Nat) (thread : Thread V E (Reply V)), m.threads[i]? = some thread →
        thread.making.count slot ≤ 1) ∧
      (∀ (i : Nat) (thread : Thread V E (Reply V)) resolution next m', m.threads[i]? = some thread →
        thread.task = .acquire slot resolution next → m.grant? i slot resolution = some .granted →
        m.step i = some m' → (∀ j, ¬ m.Makes j slot) ∧ m'.Makes i slot) ∧
      (∀ (i : Nat) (thread : Thread V E (Reply V)) cell next, m.threads[i]? = some thread →
        thread.task = .settle slot cell next → m.Makes i slot)) ∧
    (∀ (i : Nat) (thread : Thread V E (Reply V)) object next m₁ m₂, m.threads[i]? = some thread →
      thread.task = .settle slot (.ready object) next → m.step i = some m₁ → m₁.Reaches m₂ →
      ∀ (j : Nat) (other : Thread V E (Reply V)) cell rest, m₂.threads[j]? = some other →
        other.task ≠ .settle slot cell rest) ∧
    (∀ object m', m.world.cells slot = .ready object → m.Reaches m' →
      m'.world.cells slot = .ready object ∧ ∀ j, ¬ m'.Makes j slot) ∧
    ∀ i context create m',
      (∀ object, m.Returns i (Task.keep slot context create) (.ok object) m' →
        m'.world.cells slot = .ready object ∧
          (m.Found i slot context.resolution object m' ∨
            ∃ between, m.Creates i slot context create (.ok object) between ∧ between.Reaches m')) ∧
      (∀ e, m.Returns i (Task.keep slot context create) (.error e) m' →
        e = .cyclicDependency context.path ∨
          ∃ m₁ m₂, m.Reaches m₁ ∧ m₁.Returns i create (.error e) m₂ ∧ m₂.Reaches m') ∧
      ∀ object, m.Creates i slot context create (.ok object) m' → m'.Makes i slot ∧
        ∀ m'', m'.Reaches m'' → (∀ other, m''.world.cells slot = .ready other → other = object) ∧
          ∀ j resolution, m''.grant? j slot resolution ≠ some .granted := by
  have h : m.Orderly := (orderly_racing w opened requests).reaches hreach
  refine ⟨⟨?_, ?_, ?_, ?_⟩, ?_, ?_, ?_⟩
  · exact fun i j => h.exclusive
  · exact fun i thread hthread => List.nodup_iff_count_le_one.mp (h.distinct hthread) slot
  · intro i thread resolution next m' hthread htask hgrant hstep
    exact h.granted hthread htask hgrant hstep
  · exact fun i thread cell next hthread htask => h.makes_of_settle hthread htask
  · intro i thread object next m₁ m₂ hthread htask hstep hreach' j other cell rest hother
    have hready := cells_of_settle hthread htask hstep
    have h₁ : m₁.Orderly := h.reaches (.single ⟨i, .step hstep⟩)
    exact (h₁.reaches hreach').no_settle_of_ready (h₁.ready_reaches hready hreach') hother cell rest
  · intro object m' hready hreach'
    have hready' := h.ready_reaches hready hreach'
    exact ⟨hready', fun j => (h.reaches hreach').not_makes_of_ready hready'⟩
  · intro i context create m'
    refine ⟨fun object hreturns => (h.keep_returns hreturns).1 object rfl,
      fun e hreturns => ((h.keep_returns hreturns).2 e rfl).imp_left And.left, fun object hcreates => ?_⟩
    obtain ⟨thread, next, hthread, htask⟩ := hcreates.exists_settle
    have hcreated : m'.Orderly := h.reaches hcreates.reaches
    refine ⟨hcreated.makes_of_settle hthread htask, fun m'' hlater => ?_⟩
    exact (hcreated.reaches hlater).not_granted (hcreated.keeping_reaches (.inl ⟨thread, next, hthread, htask⟩) hlater)

/-- Two threads that ask for the same value. -/
def rivals : Machine Unit Unit (Reply Unit) :=
  racing (.ofBindings [.nth 0 []]) [] [(0, .get (.nth 0) []), (0, .get (.nth 0) [])]

/-- The first of two threads is given the task of making the value and the second falls asleep; what
the first keeps is there for good. -/
theorem made_at_most_once_rivals :
    ∃ m m' object, rivals.Reaches m ∧ m.Makes 0 (.nth 0) ∧ ¬ m.Makes 1 (.nth 0) ∧
      (m.threads[1]?).map Thread.phase = some (.asleep (.nth 0)) ∧ m.Reaches m' ∧
      m'.world.cells (.nth 0) = .ready object ∧
      ∀ m'', m'.Reaches m'' → m''.world.cells (.nth 0) = .ready object := by
  obtain ⟨m, m', hm, hm', hmaking, hphase, hready⟩ : ∃ m m',
      rivals.follow (List.replicate 6 0 ++ List.replicate 8 1) = some m ∧
        m.follow (List.replicate 4 0) = some m' ∧
        (m.threads[0]?).map Thread.making = some [.nth 0] ∧
        (m.threads[1]?).map Thread.phase = some (.asleep (.nth 0)) ∧
        m'.world.cells (.nth 0) = .ready ⟨0, (TypeInfo.nth 0).id, ()⟩ :=
    ⟨_, _, rfl, rfl, rfl, rfl, rfl⟩
  have hreach : rivals.Reaches m := reaches_follow hm
  have hreach' : m.Reaches m' := reaches_follow hm'
  obtain ⟨thread, hthread, hslots⟩ := Option.map_eq_some_iff.mp hmaking
  have hmakes : m.Makes 0 (.nth 0) := ⟨thread, hthread, hslots ▸ List.mem_cons_self⟩
  refine ⟨m, m', _, hreach, hmakes, fun hother => ?_, hphase, hreach', hready, fun m'' hm'' => ?_⟩
  · have hsame := (made_at_most_once _ [] _ hreach (.nth 0)).1.1 0 1 hmakes hother
    contradiction
  · exact ((made_at_most_once _ [] _ (hreach.trans hreach') (.nth 0)).2.2.1 _ m'' hready hm'').1

end Machine

end Injection

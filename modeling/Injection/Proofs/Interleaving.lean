import Injection.Concurrent
import Injection.Proofs.Conduct
import Mathlib.Logic.Relation

/-!
# Interleavings of threads

A run of a machine is any number of moves of any threads in any order. Everything that a move can
do is said once, by `Machine.Effect`; what holds along every run is then shown case by case. How
far a thread has got with a part of its task while the machine moves is followed by
`Machine.Performs`, whatever the thread goes on with afterwards.
-/

namespace Injection

variable {V E α β : Type}

/-- The cell that a thread in a phase has asked for. -/
def Phase.asked? : Phase → Option Slot
  | .running => none
  | .woken slot | .deciding slot _ | .settling slot | .asleep slot | .notified slot => some slot

/-- The phases of a thread that is recorded as waiting. -/
def Phase.Waits : Phase → Prop
  | .settling _ | .asleep _ | .notified _ => True
  | .running | .woken _ | .deciding _ _ => False

/-- Whoever waits, waits for a cell. -/
theorem Phase.exists_asked {phase : Phase} (h : phase.Waits) : ∃ slot, phase.asked? = some slot := by
  cases phase <;> simp_all [Waits, asked?]

/-- A thread that stands with no cell is running. -/
theorem Phase.eq_running {phase : Phase} (h : ∀ slot, phase.asked? ≠ some slot) :
    phase = .running := by
  cases phase <;> simp_all [asked?]

/-- The thread as it is after everyone who waits for a cell was woken. -/
def Thread.roused (slot : Slot) (thread : Thread V E α) : Thread V E α :=
  if thread.phase = .asleep slot then { thread with phase := .notified slot } else thread

/-- The cell that a task asks for next, and the resolution that it asks for. -/
def Task.asked? : Task V E α → Option (Slot × Resolution)
  | .acquire slot resolution _ => some (slot, resolution)
  | _ => none

/-- A task that asks for a cell next is the asking. -/
theorem Task.eq_acquire {task : Task V E α} {slot : Slot} {resolution : Resolution}
    (h : task.asked? = some (slot, resolution)) : ∃ next, task = .acquire slot resolution next := by
  cases task with
  | acquire slot' resolution' next =>
    obtain ⟨rfl, rfl⟩ := Prod.mk.inj (Option.some.inj h)
    exact ⟨next, rfl⟩
  | _ => simp [asked?] at h

namespace Machine

variable {m m' m'' : Machine V E α} {i j : Nat} {thread : Thread V E α}

/-- The thread looks into a cell next: it takes the cell if nobody holds it, or holds it since it
was woken. -/
def Looks (m : Machine V E α) (thread : Thread V E α) (slot : Slot) : Prop :=
  thread.phase = .running ∧ m.isFree slot = true ∨ ∃ other, thread.phase = .woken other

/-- What a move of a thread may do. -/
inductive Effect [Hashed V] (m : Machine V E α) (i : Nat) (thread : Thread V E α) :
    Machine V E α → Prop
  | act {change next} (htask : thread.task = .act change next) :
    Effect m i thread (m.update i { thread with task := next m.world } (change m.world))
  | call {request next} (htask : thread.task = .call request next) :
    Effect m i thread (m.update i { thread with task := request.body.bind next } m.world)
  | settle {slot cell next} (htask : thread.task = .settle slot cell next)
    (hfree : m.isFree slot = true) :
    Effect m i thread (m.update i { thread with task := next, making := thread.making.tail }
      (m.world.setCell slot cell))
  | notify {slot next} (htask : thread.task = .notify slot next) :
    Effect m i thread ((m.update i { thread with task := next } m.world).wake slot)
  /-- Arrives at a gate, or opens it. -/
  | arrive {gate next gates} (htask : thread.task = .meet gate next)
    (hclosed : gate ∉ m.gates.opened) : Effect m i thread { m with gates }
  /-- Goes through a gate that is open, or alone. -/
  | pass {gate next} (htask : thread.task = .meet gate next)
    (hopen : gate ∈ m.gates.opened ∨ m.step i = none) :
    Effect m i thread (m.update i { thread with task := next } m.world)
  /-- Finds the value. -/
  | found {slot resolution next object} (htask : thread.task = .acquire slot resolution next)
    (hlooks : m.Looks thread slot) (hcell : m.world.cells slot = .ready object) :
    Effect m i thread
      (m.update i { thread with task := next (.ready object), phase := .running } m.world)
  /-- Begins to make the value. -/
  | begun {slot resolution next} (htask : thread.task = .acquire slot resolution next)
    (hlooks : m.Looks thread slot) (hcell : m.world.cells slot = .empty) :
    Effect m i thread
      (m.update i ⟨next .granted, .running, slot :: thread.making⟩
        (m.world.setCell slot (.creating resolution.number)))
  /-- Finds that its own resolution is making the value. -/
  | reentered {slot resolution next} (htask : thread.task = .acquire slot resolution next)
    (hlooks : m.Looks thread slot) (hcell : m.world.cells slot = .creating resolution.number) :
    Effect m i thread (m.update i { thread with task := next .cycle, phase := .running } m.world)
  /-- Finds that another resolution is making the value. -/
  | met {slot resolution next creator} (htask : thread.task = .acquire slot resolution next)
    (hlooks : m.Looks thread slot) (hcell : m.world.cells slot = .creating creator)
    (hother : creator ≠ resolution.number) :
    Effect m i thread (m.update i { thread with phase := .deciding slot creator } m.world)
  /-- Is recorded as waiting. -/
  | enlisted {slot resolution next other creator waiting}
    (htask : thread.task = .acquire slot resolution next)
    (hphase : thread.phase = .deciding other creator)
    (hstart : m.world.waiting.start resolution.number creator = (true, waiting)) :
    Effect m i thread (m.update i { thread with phase := .settling slot }
      ({ m.world with waiting }.emit resolution.logger .waiting))
  /-- Must not wait. -/
  | refused {slot resolution next other creator}
    (htask : thread.task = .acquire slot resolution next)
    (hphase : thread.phase = .deciding other creator)
    (hstart : (m.world.waiting.start resolution.number creator).1 = false) :
    Effect m i thread (m.update i { thread with task := next .cycle, phase := .running } m.world)
  /-- Goes to sleep. -/
  | slept {slot resolution next other} (htask : thread.task = .acquire slot resolution next)
    (hphase : thread.phase = .settling other) :
    Effect m i thread (m.update i { thread with phase := .asleep slot } m.world)
  /-- Takes the cell again after it was woken. -/
  | risen {slot resolution next other} (htask : thread.task = .acquire slot resolution next)
    (hphase : thread.phase = .notified other) (hfree : m.isFree slot = true) :
    Effect m i thread (m.update i { thread with phase := .woken slot }
      { m.world with waiting := m.world.waiting.erase resolution.number })

/-- Looking into a cell does one of the things that looking may do. -/
theorem inspect_effect [Hashed V] {slot : Slot} {resolution : Resolution}
    {next : Grant V → Task V E α} (htask : thread.task = .acquire slot resolution next)
    (hlooks : m.Looks thread slot) :
    m.Effect i thread (m.inspect i thread slot resolution next) := by
  unfold inspect
  split
  · next object hcell => exact .found htask hlooks hcell
  · next hcell => exact .begun htask hlooks hcell
  · next creator hcell =>
    split
    · next heq => exact .reentered htask hlooks (heq ▸ hcell)
    · next hne => exact .met htask hlooks hcell hne

/-- Every step of a thread does one of the things that a move may do. -/
theorem step_effect [Hashed V] (h : m.step i = some m') :
    ∃ thread, m.threads[i]? = some thread ∧ m.Effect i thread m' := by
  unfold step at h
  split at h
  · simp at h
  · next thread hthread =>
    refine ⟨thread, hthread, ?_⟩
    split at h
    · simp at h
    · next htask => exact Option.some.inj h ▸ .act htask
    · next slot resolution next htask =>
      unfold acquire at h
      split at h
      · next hphase =>
        split at h
        · next hfree => exact Option.some.inj h ▸ inspect_effect htask (Or.inl ⟨hphase, hfree⟩)
        · simp at h
      · next hphase => exact Option.some.inj h ▸ inspect_effect htask (Or.inr ⟨_, hphase⟩)
      · next hphase =>
        split at h
        · next hstart => exact Option.some.inj h ▸ .enlisted htask hphase hstart
        · next hstart => exact Option.some.inj h ▸ .refused htask hphase (by rw [hstart])
      · next hphase => exact Option.some.inj h ▸ .slept htask hphase
      · simp at h
      · next hphase =>
        split at h
        · next hfree => exact Option.some.inj h ▸ .risen htask hphase hfree
        · simp at h
    · next htask =>
      split at h
      · next hfree => exact Option.some.inj h ▸ .settle htask hfree
      · simp at h
    · next htask => exact Option.some.inj h ▸ .notify htask
    · next htask => exact Option.some.inj h ▸ .call htask
    · next gate next htask =>
      unfold meet at h
      split at h
      · next hopened => exact Option.some.inj h ▸ .pass htask (Or.inl (by simpa using hopened))
      · next hopened =>
        have hclosed : gate ∉ m.gates.opened := by simpa using hopened
        split at h
        · exact Option.some.inj h ▸ .arrive htask hclosed
        · split at h
          · simp at h
          · exact Option.some.inj h ▸ .arrive htask hclosed

/-! ### The other threads -/

/-- The thread that was replaced. -/
theorem update_threads_self (h : m.threads[i]? = some thread) (thread' : Thread V E α)
    (w : World V E) : (m.update i thread' w).threads[i]? = some thread' := by
  simp [update, (List.getElem?_eq_some_iff.mp h).1]

/-- The threads that were not replaced. -/
theorem update_threads_ne (h : i ≠ j) (thread' : Thread V E α) (w : World V E) :
    (m.update i thread' w).threads[j]? = m.threads[j]? := by
  simp [update, h]

/-- Waking those who wait for a cell rouses each thread on its own. -/
theorem wake_threads (m : Machine V E α) (slot : Slot) (j : Nat) :
    (m.wake slot).threads[j]? = (m.threads[j]?).map (Thread.roused slot) := by
  simp only [wake, List.getElem?_map]
  rfl

/-- A thread that is roused goes on with its task. -/
theorem roused_task (slot : Slot) (thread : Thread V E α) : (thread.roused slot).task = thread.task := by
  unfold Thread.roused
  split <;> rfl

/-- A thread that is roused is still making what it was making. -/
theorem roused_making (slot : Slot) (thread : Thread V E α) :
    (thread.roused slot).making = thread.making := by
  unfold Thread.roused
  split <;> rfl

/-- A thread that is roused stands with the cell that it stood with. -/
theorem roused_asked? (slot : Slot) (thread : Thread V E α) :
    (thread.roused slot).phase.asked? = thread.phase.asked? := by
  unfold Thread.roused
  split
  · next h => simp [h, Phase.asked?]
  · rfl

/-- A move of one thread at most wakes another. -/
theorem Effect.other [Hashed V] (h : m.Effect i thread m') (hne : i ≠ j) :
    m'.threads[j]? = m.threads[j]? ∨
      ∃ slot, thread.task.Announces slot ∧
        m'.threads[j]? = (m.threads[j]?).map (Thread.roused slot) := by
  cases h with
  | notify htask =>
    refine Or.inr ⟨_, ?_, (wake_threads _ _ j).trans (by rw [update_threads_ne hne])⟩
    rw [htask]
    rfl
  | arrive htask hclosed => exact Or.inl rfl
  | _ => exact Or.inl (update_threads_ne hne _ _)

/-- What another thread was before a move. -/
theorem Effect.other_before [Hashed V] {other : Thread V E α} (h : m.Effect i thread m')
    (hne : i ≠ j) (hother : m'.threads[j]? = some other) :
    ∃ before, m.threads[j]? = some before ∧
      (other = before ∨ ∃ slot, thread.task.Announces slot ∧ other = before.roused slot) := by
  rcases h.other hne with hsame | ⟨slot, hannounces, hroused⟩
  · exact ⟨other, hsame ▸ hother, Or.inl rfl⟩
  · obtain ⟨before, hbefore, rfl⟩ := Option.map_eq_some_iff.mp (hroused ▸ hother)
    exact ⟨before, hbefore, Or.inr ⟨slot, hannounces, rfl⟩⟩

/-! ### The thread that moves -/

/-- A thread is making the value of a cell. -/
def Makes (m : Machine V E α) (i : Nat) (slot : Slot) : Prop :=
  ∃ thread, m.threads[i]? = some thread ∧ slot ∈ thread.making

/-- What a move may do to the cells and to the cells that the thread is making values for. -/
inductive Transfer (m : Machine V E α) (thread thread' : Thread V E α) (w : World V E) : Prop
  | neither (hcells : w.cells = m.world.cells) (hmaking : thread'.making = thread.making)
  /-- Begins to make a value. -/
  | begins {slot resolution next} (htask : thread.task = .acquire slot resolution next)
    (hempty : m.world.cells slot = .empty)
    (hcells : w.cells = (m.world.setCell slot (.creating resolution.number)).cells)
    (hmaking : thread'.making = slot :: thread.making)
  /-- Keeps a value or gives it up, and is about to tell everybody. -/
  | ends {slot cell} (hfree : m.isFree slot = true) (hcell : ∀ r, cell ≠ .creating r)
    (hcells : w.cells = (m.world.setCell slot cell).cells)
    (hmaking : thread.making = slot :: thread'.making) (hannounces : thread'.task.Announces slot)

/-- How a move may change where the thread stands and what is recorded of it. -/
inductive Turn (m : Machine V E α) (thread thread' : Thread V E α) (w : World V E) : Prop
  /-- Asks for no cell, or is answered. -/
  | runs (hbefore : ¬ thread.phase.Waits) (hafter : thread'.phase = .running)
    (hwaiting : w.waiting = m.world.waiting)
  | decides {slot resolution next creator} (htask : thread.task = .acquire slot resolution next)
    (hbefore : ¬ thread.phase.Waits) (hcreating : m.world.cells slot = .creating creator)
    (hother : creator ≠ resolution.number)
    (hafter : thread' = { thread with phase := .deciding slot creator }) (hw : w = m.world)
  | enlists {slot resolution next other creator waiting}
    (htask : thread.task = .acquire slot resolution next)
    (hbefore : thread.phase = .deciding other creator)
    (hstart : m.world.waiting.start resolution.number creator = (true, waiting))
    (hafter : thread' = { thread with phase := .settling slot })
    (hcells : w.cells = m.world.cells) (hwaiting : w.waiting = waiting)
  | sleeps {slot resolution next other} (htask : thread.task = .acquire slot resolution next)
    (hbefore : thread.phase = .settling other)
    (hafter : thread' = { thread with phase := .asleep slot }) (hw : w = m.world)
  | rises {slot resolution next other} (htask : thread.task = .acquire slot resolution next)
    (hbefore : thread.phase = .notified other)
    (hafter : thread' = { thread with phase := .woken slot })
    (hw : w = { m.world with waiting := m.world.waiting.erase resolution.number })

/-- Who looks into a cell does not wait. -/
theorem Looks.not_waits {slot : Slot} (h : m.Looks thread slot) : ¬ thread.phase.Waits := by
  rcases h with ⟨hphase, -⟩ | ⟨other, hphase⟩
  · simp [hphase, Phase.Waits]
  · simp [hphase, Phase.Waits]

/-- A thread that does anything but ask for a cell stands with no cell. -/
theorem running_of_task
    (hasking : ∀ slot, thread.phase.asked? = some slot →
      ∃ resolution next, thread.task = .acquire slot resolution next)
    (hother : ∀ slot resolution next, thread.task ≠ .acquire slot resolution next) :
    thread.phase = .running := by
  apply Phase.eq_running
  intro slot hasked
  obtain ⟨resolution, next, hacquire⟩ := hasking slot hasked
  exact hother slot resolution next hacquire

/-- A thread that keeps the rules goes on keeping them. -/
theorem Effect.mover [Hashed V] {C : Conduct V E} {ends : α → List Slot → Prop} (hC : C.Lawful)
    (h : m.Effect i thread m') (hthread : m.threads[i]? = some thread)
    (hholds : C.holds m.world.components)
    (hasking : ∀ slot, thread.phase.asked? = some slot →
      ∃ resolution next, thread.task = .acquire slot resolution next)
    (hfollows : thread.task.Follows C ends thread.making) :
    ∃ thread', m'.threads[i]? = some thread' ∧ C.holds m'.world.components ∧
      m.world.nextResolution ≤ m'.world.nextResolution ∧
      thread'.task.Follows C ends thread'.making ∧
      m.Transfer thread thread' m'.world ∧ m.Turn thread thread' m'.world := by
  have hrunning {task : Task V E α} (htask : thread.task = task)
      (hother : ∀ slot resolution next, task ≠ .acquire slot resolution next) : thread.phase = .running :=
    running_of_task hasking fun slot resolution next hacquire => hother _ _ _ (htask.symm.trans hacquire)
  have hidle (hphase : thread.phase = .running) : ¬ thread.phase.Waits := by simp [hphase, Phase.Waits]
  cases h with
  | act htask =>
    have hphase := hrunning htask (by simp)
    rw [htask] at hfollows
    obtain ⟨hunnoticed, hnext⟩ := hfollows _ hholds
    exact ⟨_, update_threads_self hthread _ _, hunnoticed.components, hunnoticed.nextResolution,
      hnext, .neither hunnoticed.cells rfl, .runs (hidle hphase) hphase hunnoticed.waiting⟩
  | call htask =>
    have hphase := hrunning htask (by simp)
    rw [htask] at hfollows
    refine ⟨_, update_threads_self hthread _ _, hholds, Nat.le_refl _, ?_, .neither rfl rfl,
      .runs (hidle hphase) hphase rfl⟩
    apply Task.Follows.bind (Call.body_keeps hC hfollows.1)
    intro reply left hleft
    exact hleft.1 ▸ hfollows.2 reply
  | settle htask hfree =>
    have hphase := hrunning htask (by simp)
    rw [htask] at hfollows
    obtain ⟨hcell, hannounces, rest, hmaking, hnext⟩ := hfollows
    refine ⟨_, update_threads_self hthread _ _, hholds, Nat.le_refl _, ?_,
      .ends hfree hcell rfl ?_ hannounces, .runs (hidle hphase) hphase rfl⟩
    · simpa only [hmaking, List.tail_cons] using hnext
    · simp [hmaking]
  | @notify slot next htask =>
    have hphase := hrunning htask (by simp)
    rw [htask] at hfollows
    have hself := update_threads_self hthread { thread with task := next } m.world
    refine ⟨_, (wake_threads _ _ i).trans (congrArg _ hself), hholds, Nat.le_refl _, ?_,
      .neither rfl (roused_making _ _), .runs (hidle hphase) ?_ rfl⟩
    · rw [roused_task, roused_making]
      exact hfollows
    · simp [Thread.roused, hphase]
  | arrive htask hclosed =>
    have hphase := hrunning htask (by simp)
    exact ⟨thread, hthread, hholds, Nat.le_refl _, hfollows, .neither rfl rfl,
      .runs (hidle hphase) hphase rfl⟩
  | pass htask hopen =>
    have hphase := hrunning htask (by simp)
    rw [htask] at hfollows
    exact ⟨_, update_threads_self hthread _ _, hholds, Nat.le_refl _, hfollows, .neither rfl rfl,
      .runs (hidle hphase) hphase rfl⟩
  | found htask hlooks hcell =>
    rw [htask] at hfollows
    exact ⟨_, update_threads_self hthread _ _, hholds, Nat.le_refl _, hfollows.2.1 _,
      .neither rfl rfl, .runs hlooks.not_waits rfl rfl⟩
  | begun htask hlooks hcell =>
    rw [htask] at hfollows
    exact ⟨_, update_threads_self hthread _ _, hholds, Nat.le_refl _, hfollows.2.2.2,
      .begins htask hcell rfl rfl, .runs hlooks.not_waits rfl rfl⟩
  | reentered htask hlooks hcell =>
    rw [htask] at hfollows
    exact ⟨_, update_threads_self hthread _ _, hholds, Nat.le_refl _, hfollows.2.2.1,
      .neither rfl rfl, .runs hlooks.not_waits rfl rfl⟩
  | met htask hlooks hcell hother =>
    exact ⟨_, update_threads_self hthread _ _, hholds, Nat.le_refl _, hfollows, .neither rfl rfl,
      .decides htask hlooks.not_waits hcell hother rfl rfl⟩
  | enlisted htask hphase hstart =>
    refine ⟨_, update_threads_self hthread _ _, ?_, ?_, hfollows, .neither ?_ rfl,
      .enlists htask hphase hstart rfl ?_ ?_⟩
    · simpa [update] using hholds
    all_goals simp [update]
  | refused htask hphase hstart =>
    rw [htask] at hfollows
    exact ⟨_, update_threads_self hthread _ _, hholds, Nat.le_refl _, hfollows.2.2.1,
      .neither rfl rfl, .runs (by simp [hphase, Phase.Waits]) rfl rfl⟩
  | slept htask hphase =>
    exact ⟨_, update_threads_self hthread _ _, hholds, Nat.le_refl _, hfollows, .neither rfl rfl,
      .sleeps htask hphase rfl rfl⟩
  | risen htask hphase hfree =>
    exact ⟨_, update_threads_self hthread _ _, hholds, Nat.le_refl _, hfollows, .neither rfl rfl,
      .rises htask hphase rfl rfl⟩

/-- What another thread is making does not change. -/
theorem Effect.makes_other [Hashed V] (h : m.Effect i thread m') (hne : i ≠ j) (slot : Slot) :
    m'.Makes j slot ↔ m.Makes j slot := by
  unfold Makes
  rcases h.other hne with hsame | ⟨announced, -, hroused⟩
  · rw [hsame]
  · rw [hroused]
    cases m.threads[j]? <;> simp [roused_making]

/-- What a thread that is known is making. -/
theorem makes_iff (h : m.threads[i]? = some thread) (slot : Slot) :
    m.Makes i slot ↔ slot ∈ thread.making := by
  simp [Makes, h]

/-! ### Runs -/

/-- One thread moves: it takes a step, or goes through a gate at which it waits alone. -/
inductive Moves [Hashed V] (m : Machine V E α) (i : Nat) : Machine V E α → Prop
  | step {after} (h : m.step i = some after) : Moves m i after
  | release {thread thread' : Thread V E α} (hthread : m.threads[i]? = some thread)
    (hgate : thread.beyondGate? = some thread') (halone : m.step i = none) :
    Moves m i (m.update i thread' m.world)

/-- Any number of moves of any threads in any order. -/
def Reaches [Hashed V] : Machine V E α → Machine V E α → Prop :=
  Relation.ReflTransGen fun m m' => ∃ i, m.Moves i m'

/-- Every move of a thread does one of the things that a move may do. -/
theorem Moves.effect [Hashed V] (h : m.Moves i m') :
    ∃ thread, m.threads[i]? = some thread ∧ m.Effect i thread m' := by
  cases h with
  | step h => exact step_effect h
  | release hthread hgate halone =>
    refine ⟨_, hthread, ?_⟩
    unfold Thread.beyondGate? at hgate
    split at hgate
    · exact Option.some.inj hgate ▸ .pass rfl (Or.inr halone)
    · simp at hgate

/-- The scheduler produces one of the runs. -/
theorem reaches_run [Hashed V] (steps : Nat) (m : Machine V E α) : m.Reaches (m.run steps) := by
  induction steps generalizing m with
  | zero => exact .refl
  | succ steps ih =>
    unfold run
    split
    · exact .refl
    · next m' h =>
      refine .head ?_ (ih m')
      cases hadvance : m.advance? with
      | some next =>
        rw [hadvance] at h
        obtain ⟨i, -, hstep⟩ := List.exists_of_findSome?_eq_some hadvance
        exact ⟨i, .step (hstep.trans h)⟩
      | none =>
        rw [hadvance] at h
        obtain ⟨i, -, hgate⟩ := List.exists_of_findSome?_eq_some h
        obtain ⟨thread', hthread', rfl⟩ := Option.map_eq_some_iff.mp hgate
        obtain ⟨thread, hthread, hbeyond⟩ := Option.bind_eq_some_iff.mp hthread'
        have hbound : i < m.threads.length := (List.getElem?_eq_some_iff.mp hthread).1
        have halone := List.findSome?_eq_none_iff.mp hadvance i (List.mem_range.mpr hbound)
        exact ⟨i, .release hthread hbeyond halone⟩

/-- Lets threads take steps in a given order, if they all can. -/
def follow [Hashed V] : (schedule : List Nat) → Machine V E α → Option (Machine V E α)
  | [], m => some m
  | i :: rest, m => (m.step i).bind (follow rest)

/-- Every order that threads can take steps in is one of the runs. -/
theorem reaches_follow [Hashed V] {schedule : List Nat} (h : m.follow schedule = some m') :
    m.Reaches m' := by
  induction schedule generalizing m with
  | nil => exact Option.some.inj h ▸ .refl
  | cons i rest ih =>
    obtain ⟨next, hstep, hrest⟩ := Option.bind_eq_some_iff.mp h
    exact .head ⟨i, .step hstep⟩ (ih hrest)

/-- What a schedule leads to can be looked at. -/
theorem exists_of_follow [Hashed V] {schedule : List Nat} {p : Machine V E α → Bool}
    (h : (m.follow schedule).any p = true) : ∃ m', m.Reaches m' ∧ p m' = true := by
  obtain ⟨m', hfollow, hp⟩ := (Option.any_eq_true _ _).mp h
  exact ⟨m', reaches_follow hfollow, hp⟩

/-- What every move preserves holds along every run. -/
theorem Reaches.invariant [Hashed V] {P : Machine V E α → Prop}
    (hP : ∀ {m m' : Machine V E α} {i thread}, P m → m.threads[i]? = some thread →
      m.Effect i thread m' → P m') (h : m.Reaches m') (hm : P m) : P m' := by
  induction h with
  | refl => exact hm
  | tail _ hmove ih =>
    obtain ⟨i, hmove⟩ := hmove
    obtain ⟨thread, hthread, heffect⟩ := hmove.effect
    exact hP ih hthread heffect

end Machine

/-! ### Small worlds -/

/-- Units carry nothing that could tell them apart. -/
instance : Hashed Unit := ⟨fun _ => []⟩

/-- One of the types that small worlds are about. -/
def TypeInfo.nth (n : UInt64) : TypeInfo := ⟨⟨n⟩, "T"⟩

/-- A single binding of one of the types, whose provider needs objects of others. -/
def Binding.nth (n : UInt64) (needs : List UInt64) : Binding Unit Unit :=
  .ofProvider (.nth n) .single (.all (needs.map fun k => .inject (.nth k))) fun _ => pure (.ok ())

/-- The world of one component, which stores the given bindings. -/
def World.ofBindings (bindings : List (Binding Unit Unit)) : World Unit Unit :=
  ((World.initial ()).addComponent ⟨[], [], bindings, .default, true⟩).2

/-- The cell of a single binding of one of the types, in the only component. -/
def Slot.nth (n : UInt64) : Slot := .single 0 (Key.of (.nth n)).identity

end Injection

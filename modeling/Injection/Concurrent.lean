import Injection.Sequential

/-!
# Interleaved threads

Several threads take turns, one step at a time, in any order. A thread that finds a cell being made
by another thread decides, while holding the cell, whether waiting is safe; if so it is recorded as
waiting and goes to sleep, which lets go of the cell. It is woken when the cell is settled, takes
the cell again, is no longer recorded as waiting, and looks anew.

Threads may also wait for each other at gates. A gate opens when a second thread arrives and stays
open; a thread that nobody else can join is let through.
-/

namespace Injection

variable {V E : Type} {α : Type}

/-- Where a thread stands with the cell it asks for. All but the first two phases are reached only
after another thread was found making the value. -/
inductive Phase where
  /-- Not waiting. -/
  | running
  /-- Not waiting any more: holds the cell and is about to look into it. -/
  | woken (slot : Slot)
  /-- Holds the cell, which `creator` is making, and is about to decide whether to wait. -/
  | deciding (slot : Slot) (creator : Nat)
  /-- Holds the cell, is recorded as waiting, and is about to go to sleep. -/
  | settling (slot : Slot)
  /-- Sleeps until the cell is settled. -/
  | asleep (slot : Slot)
  /-- Was woken and is about to take the cell. -/
  | notified (slot : Slot)
deriving DecidableEq

/-- The cell that a thread in a phase holds. -/
def Phase.held? : Phase → Option Slot
  | woken slot | deciding slot _ | settling slot => some slot
  | running | asleep _ | notified _ => none

/-- One thread: what it has left to do, where it stands, and the cells it is making values for,
innermost first. -/
structure Thread (V E α : Type) where
  task : Task V E α
  phase : Phase
  making : List Slot

/-- The result of a thread that has come to its end. -/
def Thread.result? : Thread V E α → Option α
  | ⟨.done result, _, _⟩ => some result
  | _ => none

/-- A thread that is at a gate, once it has gone through. -/
def Thread.beyondGate? : Thread V E α → Option (Thread V E α)
  | ⟨.meet _ next, phase, making⟩ => some ⟨next, phase, making⟩
  | _ => none

/-- Which threads have arrived at which gates, and which gates are open. -/
structure Gates where
  arrivals : List (String × Nat)
  opened : List String
deriving DecidableEq

/-- The threads, the world they share, and the gates between them. -/
structure Machine (V E α : Type) where
  world : World V E
  threads : List (Thread V E α)
  gates : Gates

namespace Machine

/-- Threads about to begin their tasks, with some gates open already. -/
def start (w : World V E) (opened : List String) (tasks : List (Task V E α)) : Machine V E α :=
  ⟨w, tasks.map fun task => ⟨task, .running, []⟩, ⟨[], opened⟩⟩

/-- Whether no thread holds a cell. -/
def isFree (m : Machine V E α) (slot : Slot) : Bool :=
  m.threads.all fun thread => thread.phase.held? ≠ some slot

/-- Replaces a thread and the world. -/
def update (m : Machine V E α) (i : Nat) (thread : Thread V E α) (w : World V E) :
    Machine V E α :=
  { m with world := w, threads := m.threads.set i thread }

/-- A thread looks into the cell it asks for. -/
def inspect (m : Machine V E α) (i : Nat) (thread : Thread V E α) (slot : Slot)
    (resolution : Resolution) (next : Grant V → Task V E α) : Machine V E α :=
  match m.world.cells slot with
  | .ready object =>
    m.update i { thread with task := next (.ready object), phase := .running } m.world
  | .empty =>
    m.update i
      { task := next .granted, phase := .running, making := slot :: thread.making }
      (m.world.setCell slot (.creating resolution.number))
  | .creating creator =>
    if creator = resolution.number then
      m.update i { thread with task := next .cycle, phase := .running } m.world
    else
      m.update i { thread with phase := .deciding slot creator } m.world

/-- A thread takes a step of the acquisition of a cell. -/
def acquire (m : Machine V E α) (i : Nat) (thread : Thread V E α) (slot : Slot)
    (resolution : Resolution) (next : Grant V → Task V E α) : Option (Machine V E α) :=
  match thread.phase with
  | .running =>
    if m.isFree slot then some (m.inspect i thread slot resolution next) else none
  | .woken _ => some (m.inspect i thread slot resolution next)
  | .deciding _ creator =>
    match m.world.waiting.start resolution.number creator with
    | (true, waiting) =>
      some (m.update i { thread with phase := .settling slot }
        ({ m.world with waiting }.emit resolution.logger .waiting))
    | (false, _) =>
      some (m.update i { thread with task := next .cycle, phase := .running } m.world)
  | .settling _ => some (m.update i { thread with phase := .asleep slot } m.world)
  | .asleep _ => none
  | .notified _ =>
    if m.isFree slot then
      some (m.update i { thread with phase := .woken slot }
        { m.world with waiting := m.world.waiting.erase resolution.number })
    else
      none

/-- Wakes every thread that sleeps on a cell. -/
def wake (m : Machine V E α) (slot : Slot) : Machine V E α :=
  { m with
    threads := m.threads.map fun thread =>
      if thread.phase = .asleep slot then { thread with phase := .notified slot } else thread }

/-- A thread at a gate goes through if the gate is open. The second to arrive opens it for good; the
first waits. -/
def meet (m : Machine V E α) (i : Nat) (thread : Thread V E α) (gate : String)
    (next : Task V E α) : Option (Machine V E α) :=
  if m.gates.opened.contains gate then
    some (m.update i { thread with task := next } m.world)
  else if m.gates.arrivals.any fun (name, other) => name = gate && other ≠ i then
    some { m with gates := { m.gates with opened := gate :: m.gates.opened } }
  else if m.gates.arrivals.contains (gate, i) then
    none
  else
    some { m with gates := { m.gates with arrivals := (gate, i) :: m.gates.arrivals } }

/-- A thread takes its next step, if it can take one. -/
def step [Hashed V] (m : Machine V E α) (i : Nat) : Option (Machine V E α) :=
  match m.threads[i]? with
  | none => none
  | some thread =>
    match thread.task with
    | .done _ => none
    | .act change next =>
      some (m.update i { thread with task := next m.world } (change m.world))
    | .acquire slot resolution next => m.acquire i thread slot resolution next
    | .settle slot cell next =>
      if m.isFree slot then
        some (m.update i { thread with task := next, making := thread.making.tail }
          (m.world.setCell slot cell))
      else
        none
    | .notify slot next => some ((m.update i { thread with task := next } m.world).wake slot)
    | .call request next =>
      some (m.update i { thread with task := request.body.bind next } m.world)
    | .meet gate next => m.meet i thread gate next

/-- The first thread that can take a step takes it. -/
def advance? [Hashed V] (m : Machine V E α) : Option (Machine V E α) :=
  (List.range m.threads.length).findSome? m.step

/-- The first thread that waits at a gate goes through alone, as nobody else will come. -/
def release? (m : Machine V E α) : Option (Machine V E α) :=
  (List.range m.threads.length).findSome? fun i =>
    (m.threads[i]?.bind Thread.beyondGate?).map fun thread => m.update i thread m.world

/-- Takes up to a number of steps, for as long as a thread can take one. -/
def run [Hashed V] : (steps : Nat) → Machine V E α → Machine V E α
  | 0, m => m
  | steps + 1, m =>
    match m.advance? <|> m.release? with
    | none => m
    | some m => run steps m

/-- The results of the threads, in their order. -/
def results (m : Machine V E α) : List (Option α) := m.threads.map Thread.result?

end Machine

end Injection

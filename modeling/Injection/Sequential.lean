import Injection.Resolution

/-!
# Running tasks one at a time

With a single thread, a cell that is being made is being made by the thread itself, so whoever asks
for it is told at once. Nested calls are unfolded to a bounded depth; a run that stays within the
bound does not depend on it.
-/

namespace Injection

variable {V E : Type} {α : Type}

/-- Why a run does not come to an end. -/
inductive Halt where
  /-- Calls are nested deeper than the bound. -/
  | tooDeep
  /-- The thread waits for a value that it is making itself, on behalf of another resolution. -/
  | stuck
deriving DecidableEq

/-- The result of a run and the world after it. -/
abbrev Run (V E α : Type) := Except Halt (α × World V E)

/-- Runs a task; nested calls are answered by `answer`. -/
def Task.run (answer : Call V → World V E → Run V E (Reply V)) :
    Task V E α → World V E → Run V E α
  | .done result, w => .ok (result, w)
  | .act change next, w => (next w).run answer (change w)
  | .acquire slot resolution next, w =>
    match w.cells slot with
    | .ready object => (next (.ready object)).run answer w
    | .empty => (next .granted).run answer (w.setCell slot (.creating resolution.number))
    | .creating creator =>
      if creator = resolution.number then (next .cycle).run answer w else .error .stuck
  | .settle slot cell next, w => next.run answer (w.setCell slot cell)
  | .notify _ next, w => next.run answer w
  | .call request next, w =>
    match answer request w with
    | .ok (reply, w) => (next reply).run answer w
    | .error halt => .error halt
  | .meet _ next, w => next.run answer w

/-- Answers a nested call, with calls nested at most `depth` deep within it. -/
def Call.answer [Hashed V] : (depth : Nat) → Call V → World V E → Run V E (Reply V)
  | 0, _, _ => .error .tooDeep
  | depth + 1, request, w => request.body.run (Call.answer depth) w

/-- Runs a task, with calls nested at most `depth` deep. -/
def World.run [Hashed V] (w : World V E) (depth : Nat) (task : Task V E α) : Run V E α :=
  task.run (Call.answer depth) w

/-- The task of a top-level query at a component. -/
def Query.task (q : Query V) (c : ComponentId) : Task V E (Reply V) := do
  return q.accept (← Task.enter c none q.key q.parameters)

/-- The resolution that belongs to no request and reports to nobody. -/
def Resolution.silent : Resolution := ⟨0, none⟩

/-- Whether a binding that serves a key is stored in a component or an ancestor. -/
def World.contains [Hashed V] (w : World V E) (c : ComponentId) (key : Key) : Bool :=
  match w.run 0 (Resolution.search .silent key c) with
  | .ok (found, _) => found.isSome
  | .error _ => false

end Injection

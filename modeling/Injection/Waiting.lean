/-!
# Who waits for whom

A resolution that waits for another to finish a value is recorded with the one it waits for. A
wait that would close a cycle of resolutions, each waiting for the next, is refused: the record is
followed from the resolution to be waited for, and the wait is entered only if the would-be waiter
is not met on the way.
-/

namespace Injection

/-- For every waiting resolution, the one it waits for. -/
structure Waiting where
  edges : List (Nat × Nat)
deriving DecidableEq

namespace Waiting

/-- Nobody waits. -/
def empty : Waiting := ⟨[]⟩

/-- The resolution that a resolution waits for, if it waits. -/
def target? (w : Waiting) (waiter : Nat) : Option Nat :=
  (w.edges.find? fun edge => edge.1 = waiter).map Prod.snd

/-- Forgets that a resolution waits. -/
def erase (w : Waiting) (waiter : Nat) : Waiting :=
  ⟨w.edges.filter fun edge => edge.1 ≠ waiter⟩

/-- Records that a resolution waits for another, and for no other any more. -/
def insert (w : Waiting) (waiter target : Nat) : Waiting :=
  ⟨(waiter, target) :: (w.erase waiter).edges⟩

/-- Whether following the record from `current` leads to `waiter`; `none` if neither that nor the
end is found within the given number of steps. -/
def reaches? (w : Waiting) (waiter : Nat) : (steps : Nat) → (current : Nat) → Option Bool
  | 0, _ => none
  | steps + 1, current =>
    match w.target? current with
    | none => some false
    | some next => if next = waiter then some true else w.reaches? waiter steps next

/-- Enters a wait, unless it would close a cycle. Following the record takes at most one step for
every entry and one to find its end. -/
def start (w : Waiting) (waiter target : Nat) : Bool × Waiting :=
  match w.reaches? waiter (w.edges.length + 1) target with
  | some false => (true, w.insert waiter target)
  | _ => (false, w)

end Waiting

end Injection

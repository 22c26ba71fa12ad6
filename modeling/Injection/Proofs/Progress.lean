import Injection.Proofs.Accounts

/-!
# Somebody can always move

A thread that holds a cell can take its next step, so if nobody can move, then no cell is held and
every thread that has not ended sleeps. Each sleeper is recorded as waiting for whoever is making
the value, who has not ended and therefore sleeps too; but the record has no cycles, and following
it comes to an end.
-/

namespace Injection

variable {V E ρ : Type}

namespace Machine

open Relation (TransGen ReflTransGen)

variable [Hashed V] {m : Machine V E (Reply V)} {i : Nat} {slot : Slot} {thread : Thread V E (Reply V)}

/-- The thread is still at its task. -/
def Unfinished (m : Machine V E (Reply V)) (i : Nat) : Prop :=
  ∃ thread, m.threads[i]? = some thread ∧ thread.result? = none

/-- Nobody can move. -/
def Stuck (m : Machine V E (Reply V)) : Prop := ∀ i m', ¬ m.Moves i m'

/-- A thread that holds a cell can take a step. -/
theorem Orderly.step_of_held (h : m.Orderly) (hthread : m.threads[i]? = some thread)
    (hheld : thread.phase.held? = some slot) : (m.step i).isSome := by
  obtain ⟨task, phase, making⟩ := thread
  have hasked : phase.asked? = some slot := by cases phase <;> simp_all [Phase.held?, Phase.asked?]
  obtain ⟨resolution, next, rfl⟩ := h.asking hthread hasked
  cases phase with
  | woken held => simp [step, hthread, acquire]
  | deciding held creator =>
    simp only [step, hthread, acquire]
    split <;> rfl
  | settling held => simp [step, hthread, acquire]
  | _ => simp [Phase.held?] at hheld

omit [Hashed V] in
/-- A cell that is not free is held by a thread. -/
theorem exists_held (h : ¬ m.isFree slot = true) :
    ∃ (i : Nat) (thread : Thread V E (Reply V)), m.threads[i]? = some thread ∧
      thread.phase.held? = some slot := by
  simp only [isFree, List.all_eq_true, decide_eq_true_eq, not_forall, not_not] at h
  obtain ⟨thread, hthread, hheld⟩ := h
  obtain ⟨i, hi⟩ := List.mem_iff_getElem?.mp hthread
  exact ⟨i, thread, hi, hheld⟩

/-- If nobody can move, then nobody holds a cell. -/
theorem Stuck.isFree (hstuck : m.Stuck) (h : m.Orderly) (slot : Slot) : m.isFree slot = true := by
  by_contra hheld
  obtain ⟨i, thread, hthread, hheld⟩ := exists_held hheld
  obtain ⟨m', hstep⟩ := Option.isSome_iff_exists.mp (h.step_of_held hthread hheld)
  exact hstuck i m' (.step hstep)

/-- If nobody can move, then every thread that has not ended sleeps. -/
theorem Stuck.asleep (hstuck : m.Stuck) (h : m.Orderly) (hthread : m.threads[i]? = some thread)
    (hunfinished : thread.result? = none) : ∃ slot, thread.phase = .asleep slot := by
  have hstep : m.step i = none := by
    cases hstep : m.step i with
    | none => rfl
    | some m' => exact absurd (.step hstep) (hstuck i m')
  obtain ⟨task, phase, making⟩ := thread
  have hfree := hstuck.isFree h
  cases task with
  | done result => simp [Thread.result?] at hunfinished
  | acquire slot resolution next =>
    cases phase with
    | asleep slept => exact ⟨slept, rfl⟩
    | deciding held creator =>
      simp only [step, hthread, acquire] at hstep
      split at hstep <;> simp at hstep
    | _ => simp [step, hthread, acquire, hfree] at hstep
  | settle slot cell next => simp [step, hthread, hfree] at hstep
  | meet gate next => exact absurd (.release hthread rfl hstep) (hstuck i _)
  | _ => simp [step, hthread] at hstep

namespace Accounts

variable {R : Ranking ρ} {first : Machine V E (Reply V)} {numbers : Nat → Option Nat} {r : Nat}

omit [Hashed V] in
/-- A thread that is making a value has not ended. -/
theorem unfinished_of_makes (h : m.Orderly) (hmakes : m.Makes i slot) : m.Unfinished i := by
  obtain ⟨⟨task, phase, making⟩, hthread, hslot⟩ := hmakes
  refine ⟨_, hthread, ?_⟩
  cases task with
  | done result =>
    have hnothing : making = [] := h.follows hthread
    simp [hnothing] at hslot
  | _ => rfl

/-- If nobody can move, then whoever has not ended sleeps and waits for somebody who has not. -/
theorem waits_of_stuck (h : Accounts R first numbers m) (hstuck : m.Stuck) (hnumber : numbers i = some r)
    (hunfinished : m.Unfinished i) :
    ∃ c j, m.world.waiting.Leads r c ∧ numbers j = some c ∧ m.Unfinished j := by
  obtain ⟨thread, hthread, hresult⟩ := hunfinished
  obtain ⟨slot, hasleep⟩ := hstuck.asleep h.orderly hthread hresult
  obtain ⟨c, hleads, hcreating | ⟨j, other, -, hother, hannounces, -⟩⟩ :=
    h.asleep hthread hnumber hasleep
  · obtain ⟨j, hj, hmakes⟩ := h.creator hcreating
    exact ⟨c, j, hleads, hj, unfinished_of_makes h.orderly hmakes⟩
  · -- Whoever is about to wake the sleeper can do so.
    obtain ⟨task, phase, making⟩ := other
    cases task with
    | notify announced next => exact absurd (.step (by simp [step, hother]; rfl)) (hstuck j _)
    | _ => exact hannounces.elim

/-- Unless all threads have ended, somebody can move. -/
theorem exists_moves (h : Accounts R first numbers m) (hunfinished : m.Unfinished i) :
    ∃ j m', m.Moves j m' := by
  by_contra hnone
  have hstuck : m.Stuck := fun j m' hmove => hnone ⟨j, m', hmove⟩
  obtain ⟨thread, hthread, hresult⟩ := hunfinished
  obtain ⟨slot, hasleep⟩ := hstuck.asleep h.orderly hthread hresult
  obtain ⟨r, hr⟩ := h.exists_number hthread (by simp [hasleep])
  have hall {b : Nat} (hwalk : ReflTransGen m.world.waiting.Leads r b) :
      ∃ j, numbers j = some b ∧ m.Unfinished j := by
    induction hwalk with
    | refl => exact ⟨i, hr, thread, hthread, hresult⟩
    | tail _ hleads ih =>
      obtain ⟨j, hj, hunfinished⟩ := ih
      obtain ⟨c, k, hleads', hk, hunfinished'⟩ := h.waits_of_stuck hstuck hj hunfinished
      exact ⟨k, hleads.unique hleads' ▸ hk, hunfinished'⟩
  obtain ⟨b, hwalk, hend⟩ := h.acyclic.exists_end r
  obtain ⟨j, hj, hunfinished⟩ := hall hwalk
  obtain ⟨c, -, hleads, -⟩ := h.waits_of_stuck hstuck hj hunfinished
  simp [Waiting.Leads, hend] at hleads

end Accounts

/-- Top-level requests of definitions that make requests only through their context never deadlock,
and no sleeper is forgotten: whoever sleeps on a cell is recorded as waiting for the resolution
that is making the value, or for one whose thread has settled the cell and wakes all sleepers next;
nobody is recorded as waiting for itself, directly or through others; and as long as a thread has
not ended, some thread can move. -/
theorem no_deadlock (w : World V E) (hw : w.Contextual) (hidle : w.Idle) (opened : List String)
    (requests : List (ComponentId × Query V)) {m : Machine V E (Reply V)}
    (hreach : (racing w opened requests).Reaches m) :
    (∀ (i : Nat) (thread : Thread V E (Reply V)) (slot : Slot), m.threads[i]? = some thread →
      thread.phase = .asleep slot →
      ∃ resolution next creator, thread.task = .acquire slot resolution next ∧
        m.world.waiting.target? resolution.number = some creator ∧
        (m.world.cells slot = .creating creator ∨
          ∃ (j : Nat) (other : Thread V E (Reply V)), m.threads[j]? = some other ∧
            other.task.Announces slot ∧ (racing w opened requests).Ended m j slot creator)) ∧
    m.world.waiting.Acyclic ∧
    ((∃ i, m.Unfinished i) → ∃ i m', m.Moves i m') := by
  obtain ⟨numbers, h⟩ := exists_accounts hw hidle hreach
  refine ⟨fun i thread slot hthread hasleep => ?_, h.acyclic, fun ⟨i, hi⟩ => h.exists_moves hi⟩
  obtain ⟨resolution, next, htask⟩ := h.orderly.asking_of_phase hthread hasleep rfl
  obtain ⟨r, hr⟩ := h.exists_number hthread (by simp [hasleep])
  have hfollows := h.follows hthread hr
  rw [htask] at hfollows
  obtain ⟨c, hleads, hmaker⟩ := h.asleep hthread hr hasleep
  refine ⟨resolution, next, c, htask, hfollows.1.1 ▸ hleads, ?_⟩
  rcases hmaker with hcreating | ⟨j, other, -, hother, hannounces, hended⟩
  · exact Or.inl hcreating
  · exact Or.inr ⟨j, other, hother, hannounces, hended⟩

/-- Two threads that ask for values that need each other. -/
def crossed : Machine Unit Unit (Reply Unit) :=
  racing (.ofBindings [.nth 0 [1], .nth 1 [0]]) [] [(0, .get (.nth 0) []), (0, .get (.nth 1) [])]

/-- The first thread sleeps until the second has made its value, which needs that of the first. The
first is recorded as waiting for the second, and somebody can move. -/
theorem no_deadlock_crossed :
    ∃ m, crossed.Reaches m ∧ m.threads.map Thread.phase = [.asleep (.nth 1), .running] ∧
      (∃ creator, m.world.waiting.target? 0 = some creator ∧
        m.world.cells (.nth 1) = .creating creator) ∧
      ∃ i m', m.Moves i m' := by
  obtain ⟨m, hm, hphases, hunfinished, hwaiting, hcreating⟩ : ∃ m,
      crossed.follow (List.replicate 12 0 ++ List.replicate 6 1 ++ List.replicate 3 0) = some m ∧
        m.threads.map Thread.phase = [.asleep (.nth 1), .running] ∧
        (m.threads[0]?).map Thread.result? = some none ∧
        m.world.waiting.target? 0 = some 1 ∧ m.world.cells (.nth 1) = .creating 1 :=
    ⟨_, rfl, rfl, rfl, rfl, rfl⟩
  have hreach : crossed.Reaches m := reaches_follow hm
  obtain ⟨thread, hthread, hresult⟩ := Option.map_eq_some_iff.mp hunfinished
  have hcontextual : (World.ofBindings [.nth 0 [1], .nth 1 [0]]).Contextual := by
    apply World.descends_ofBindings
    intro binding hbinding
    simp only [List.mem_cons, List.not_mem_nil, or_false] at hbinding
    rcases hbinding with rfl | rfl
    · exact ⟨0, [1], rfl, fun _ _ => trivial⟩
    · exact ⟨1, [0], rfl, fun _ _ => trivial⟩
  have hmoves := (no_deadlock _ hcontextual (World.idle_ofBindings _) [] _ hreach).2.2
  exact ⟨m, hreach, hphases, ⟨1, hwaiting, hcreating⟩, hmoves ⟨0, thread, hthread, hresult⟩⟩

end Machine

end Injection

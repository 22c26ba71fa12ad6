import Injection.Proofs.Exclusion
import Injection.Proofs.Ranking
import Injection.Proofs.WaitingRecord

/-!
# Accounts of who waits for whom

Where definitions make their requests only through their context, a thread works for one resolution
from the moment it enters its top-level request. The accounts of a machine say which: they tie the
number in the state of a cell to the thread that is making the value, and the entries in the record
of waits to the threads that stand with a cell. An entry may outlive what it was made for. It is in
force while the waiter holds the cell or sleeps, and then leads to the resolution that is making the
value or that is about to wake the waiter; once the waiter is woken it says nothing any more.
-/

namespace Injection

variable {V E ρ : Type}

/-- The thread has yet to enter its top-level request. -/
def Thread.Dormant (thread : Thread V E (Reply V)) : Prop :=
  ∃ (c : ComponentId) (q : Query V), thread = ⟨q.task c, .running, []⟩

namespace Machine

variable {m m' : Machine V E (Reply V)} {i j : Nat} {slot : Slot}

/-- On the way from one machine to another, a thread has settled a cell whose value was being made
by the resolution of a number. -/
def Ended [Hashed V] (first m : Machine V E (Reply V)) (i : Nat) (slot : Slot) (number : Nat) : Prop :=
  ∃ before after : Machine V E (Reply V), first.Reaches before ∧
    before.world.cells slot = .creating number ∧ before.Moves i after ∧
    (∀ r, after.world.cells slot ≠ .creating r) ∧ after.Reaches m

/-- What is true at all times of threads whose definitions descend. A thread works for the
resolution of its number, if it has entered one. -/
structure Accounts [Hashed V] (R : Ranking ρ) (first : Machine V E (Reply V))
    (numbers : Nat → Option Nat) (m : Machine V E (Reply V)) : Prop where
  orderly : m.Orderly
  reached : first.Reaches m
  descends : m.world.Descends R
  dormant : ∀ {i : Nat} {thread : Thread V E (Reply V)}, m.threads[i]? = some thread →
    numbers i = none → thread.Dormant
  follows : ∀ {i r : Nat} {thread : Thread V E (Reply V)}, m.threads[i]? = some thread →
    numbers i = some r →
      thread.task.Follows (.descending R r) (fun _ left => left = []) thread.making
  known : ∀ {i r : Nat}, numbers i = some r → r < m.world.nextResolution
  injective : ∀ {i j r : Nat}, numbers i = some r → numbers j = some r → i = j
  /-- Whoever a cell says is making its value is making it. -/
  creator : ∀ {slot : Slot} {r : Nat}, m.world.cells slot = .creating r →
    ∃ i, numbers i = some r ∧ m.Makes i slot
  acyclic : m.world.waiting.Acyclic
  /-- Whoever is recorded as waiting stands with a cell, or was woken and has yet to take it. -/
  recorded : ∀ {a b : Nat}, m.world.waiting.Leads a b →
    ∃ (i : Nat) (thread : Thread V E (Reply V)), numbers i = some a ∧
      m.threads[i]? = some thread ∧ thread.phase.Waits
  deciding : ∀ {i c : Nat} {thread : Thread V E (Reply V)} {slot : Slot},
    m.threads[i]? = some thread → thread.phase = .deciding slot c →
      numbers i ≠ some c ∧ m.world.cells slot = .creating c
  settling : ∀ {i r : Nat} {thread : Thread V E (Reply V)} {slot : Slot},
    m.threads[i]? = some thread → numbers i = some r → thread.phase = .settling slot →
      ∃ c, m.world.waiting.Leads r c ∧ m.world.cells slot = .creating c
  /-- Whoever sleeps waits for somebody who is making the value or is about to wake it. -/
  asleep : ∀ {i r : Nat} {thread : Thread V E (Reply V)} {slot : Slot},
    m.threads[i]? = some thread → numbers i = some r → thread.phase = .asleep slot →
      ∃ c, m.world.waiting.Leads r c ∧ (m.world.cells slot = .creating c ∨
        ∃ (j : Nat) (other : Thread V E (Reply V)), numbers j = some c ∧
          m.threads[j]? = some other ∧ other.task.Announces slot ∧ first.Ended m j slot c)

/-- A cell that a thread holds is not free. -/
theorem not_isFree {thread : Thread V E (Reply V)} (hthread : m.threads[i]? = some thread)
    (hheld : thread.phase.held? = some slot) : ¬ m.isFree slot = true := by
  intro hfree
  have hthreads := List.all_eq_true.mp hfree thread (List.mem_of_getElem? hthread)
  simp [hheld] at hthreads

/-- Only a thread that is not about to be woken stays in its phase. -/
theorem roused_phase {thread : Thread V E (Reply V)} {phase : Phase}
    (hphase : (thread.roused slot).phase = phase) :
    thread.phase = phase ∨ thread.phase = .asleep slot ∧ phase = .notified slot := by
  unfold Thread.roused at hphase
  split at hphase
  · next hasleep => exact Or.inr ⟨hasleep, hphase.symm⟩
  · exact Or.inl hphase

/-- Being woken, a thread is still recorded. -/
theorem roused_waits {thread : Thread V E (Reply V)} (h : thread.phase.Waits) :
    (thread.roused slot).phase.Waits := by
  unfold Thread.roused
  split
  · trivial
  · exact h

variable [Hashed V]

/-- Who makes a value goes on making it, or has settled the cell and is about to tell everybody. -/
theorem Transfer.makes {thread thread' : Thread V E (Reply V)}
    (h : m.Transfer thread thread' m'.world) (heffect : m.Effect i thread m')
    (hthread : m.threads[i]? = some thread) (hthread' : m'.threads[i]? = some thread')
    (hmakes : m.Makes j slot) :
    m'.Makes j slot ∨ j = i ∧ m.isFree slot = true ∧ thread'.task.Announces slot ∧
      ∀ r, m'.world.cells slot ≠ .creating r := by
  by_cases hij : i = j
  · subst hij
    have hmem := (makes_iff hthread slot).mp hmakes
    cases h with
    | neither hcells hmaking => exact Or.inl ((makes_iff hthread' slot).mpr (hmaking ▸ hmem))
    | begins htask hempty hcells hmaking =>
      exact Or.inl ((makes_iff hthread' slot).mpr (hmaking ▸ List.mem_cons_of_mem _ hmem))
    | @ends settled cell hfree hcell hcells hmaking hannounces =>
      rw [hmaking] at hmem
      rcases List.mem_cons.mp hmem with rfl | hmem
      · refine Or.inr ⟨rfl, hfree, hannounces, fun r => ?_⟩
        rw [hcells]
        simpa [World.setCell] using hcell r
      · exact Or.inl ((makes_iff hthread' slot).mpr hmem)
  · exact Or.inl ((heffect.makes_other hij slot).mpr hmakes)

/-- A thread that wakes everybody who waits for a cell does so. -/
theorem Effect.wakes {thread : Thread V E (Reply V)} (h : m.Effect i thread m')
    (hannounces : thread.task.Announces slot) (hne : i ≠ j) :
    m'.threads[j]? = (m.threads[j]?).map (Thread.roused slot) := by
  have hnone {task : Task V E (Reply V)} (htask : thread.task = task)
      (hother : ∀ other next, task ≠ .notify other next) : False := by
    rw [htask] at hannounces
    cases task with
    | notify other next => exact hother other next rfl
    | _ => exact hannounces
  cases h with
  | notify htask =>
    rw [htask] at hannounces
    obtain rfl : _ = slot := hannounces
    exact (wake_threads _ _ j).trans (by rw [update_threads_ne hne])
  | _ htask => exact (hnone htask (by simp)).elim

/-- One move of a thread that works for the resolution of a number, or begins to. -/
structure Advance (R : Ranking ρ) (numbers numbers' : Nat → Option Nat) (r i : Nat)
    (thread thread' : Thread V E (Reply V)) (m m' : Machine V E (Reply V)) : Prop where
  moves : m.Moves i m'
  effect : m.Effect i thread m'
  before : m.threads[i]? = some thread
  after : m'.threads[i]? = some thread'
  asks : ∀ slot resolution next, thread.task = .acquire slot resolution next → resolution.number = r
  descends : m'.world.Descends R
  follows : thread'.task.Follows (.descending R r) (fun _ left => left = []) thread'.making
  transfer : m.Transfer thread thread' m'.world
  turn : m.Turn thread thread' m'.world
  self : numbers' i = some r
  others : ∀ j, j ≠ i → numbers' j = numbers j
  kept : ∀ {j c}, numbers j = some c → numbers' j = some c
  known : ∀ {j c}, numbers' j = some c → c < m'.world.nextResolution
  injective : ∀ {j k c}, numbers' j = some c → numbers' k = some c → j = k

/-- What another thread was before the move. -/
theorem Advance.other_before {R : Ranking ρ} {numbers numbers' : Nat → Option Nat} {r : Nat}
    {thread thread' other : Thread V E (Reply V)}
    (h : Advance R numbers numbers' r i thread thread' m m') (hij : j ≠ i) (hother : m'.threads[j]? = some other) :
    ∃ before, m.threads[j]? = some before ∧ before.task = other.task ∧
      before.making = other.making ∧
      (before.phase = other.phase ∨
        ∃ slot, before.phase = .asleep slot ∧ other.phase = .notified slot) := by
  obtain ⟨before, hbefore, rfl | ⟨announced, -, rfl⟩⟩ := h.effect.other_before (Ne.symm hij) hother
  · exact ⟨other, hbefore, rfl, rfl, Or.inl rfl⟩
  · refine ⟨before, hbefore, (roused_task _ _).symm, (roused_making _ _).symm, ?_⟩
    rcases roused_phase (Eq.refl (before.roused announced).phase) with hphase | ⟨hasleep, hnotified⟩
    · exact Or.inl hphase
    · exact Or.inr ⟨announced, hasleep, hnotified⟩

namespace Accounts

variable {R : Ranking ρ} {first : Machine V E (Reply V)} {numbers numbers' : Nat → Option Nat}
  {r c : Nat} {thread thread' other : Thread V E (Reply V)}

variable (h : Accounts R first numbers m)
include h

/-- A thread that stands with a cell works for a resolution. -/
theorem exists_number (hthread : m.threads[i]? = some thread) (hphase : thread.phase ≠ .running) :
    ∃ r, numbers i = some r := by
  cases hnumber : numbers i with
  | none =>
    obtain ⟨c, q, rfl⟩ := h.dormant hthread hnumber
    exact absurd rfl hphase
  | some r => exact ⟨r, rfl⟩

variable (hadvance : Advance R numbers numbers' r i thread thread' m m')
include hadvance

/-- A value that is being made goes on being made by the same resolution, unless its maker has
settled the cell. -/
theorem creating_after (hcreating : m.world.cells slot = .creating c) :
    m'.world.cells slot = .creating c ∨ numbers i = some c ∧ m.isFree slot = true ∧
      thread'.task.Announces slot ∧ ∀ r, m'.world.cells slot ≠ .creating r := by
  cases hadvance.transfer with
  | neither hcells hmaking => exact Or.inl (hcells ▸ hcreating)
  | @begins begun resolution next htask hempty hcells hmaking =>
    have hslot : slot ≠ begun := by
      rintro rfl
      simp [hcreating] at hempty
    exact Or.inl (by simp [hcells, World.setCell, hslot, hcreating])
  | @ends settled cell hfree hcell hcells hmaking hannounces =>
    by_cases hslot : slot = settled
    · subst hslot
      obtain ⟨k, hk, hmakes⟩ := h.creator hcreating
      have hmaker : m.Makes i slot := ⟨thread, hadvance.before, hmaking ▸ List.mem_cons_self⟩
      obtain rfl := h.orderly.exclusive hmakes hmaker
      refine Or.inr ⟨hk, hfree, hannounces, fun r => ?_⟩
      rw [hcells]
      simpa [World.setCell] using hcell r
    · exact Or.inl (by simp [hcells, World.setCell, hslot, hcreating])

/-- Nobody settles a cell that another thread holds. -/
theorem creating_held (hcreating : m.world.cells slot = .creating c)
    (hother : m.threads[j]? = some other) (hheld : other.phase.held? = some slot) :
    m'.world.cells slot = .creating c := by
  rcases creating_after h hadvance hcreating with hcell | ⟨-, hfree, -⟩
  · exact hcell
  · exact absurd hfree (not_isFree hother hheld)

/-- Whoever a cell says is making its value after the move is making it. -/
theorem creator_after (hcreating : m'.world.cells slot = .creating c) :
    ∃ j, numbers' j = some c ∧ m'.Makes j slot := by
  have hold (hbefore : m.world.cells slot = .creating c) : ∃ j, numbers' j = some c ∧ m'.Makes j slot := by
    obtain ⟨j, hj, hmakes⟩ := h.creator hbefore
    rcases hadvance.transfer.makes hadvance.effect hadvance.before hadvance.after hmakes with
      hmakes | ⟨-, -, -, hnot⟩
    · exact ⟨j, hadvance.kept hj, hmakes⟩
    · exact absurd hcreating (hnot c)
  cases hadvance.transfer with
  | neither hcells hmaking => exact hold (hcells ▸ hcreating)
  | @begins begun resolution next htask hempty hcells hmaking =>
    rw [hcells] at hcreating
    by_cases hslot : slot = begun
    · subst hslot
      simp only [World.setCell, if_true, Cell.creating.injEq] at hcreating
      obtain rfl := hcreating.symm.trans (hadvance.asks _ _ _ htask)
      exact ⟨i, hadvance.self, thread', hadvance.after, hmaking ▸ List.mem_cons_self⟩
    · simp only [World.setCell, hslot, if_false] at hcreating
      exact hold hcreating
  | @ends settled cell hfree hcell hcells hmaking hannounces =>
    rw [hcells] at hcreating
    by_cases hslot : slot = settled
    · simp only [World.setCell, hslot, if_true] at hcreating
      exact absurd hcreating (hcell c)
    · simp only [World.setCell, hslot, if_false] at hcreating
      exact hold hcreating

/-- What is recorded of other resolutions does not change. -/
theorem target?_after {a : Nat} (ha : a ≠ r) :
    m'.world.waiting.target? a = m.world.waiting.target? a := by
  cases hadvance.turn with
  | runs hbefore hafter hwaiting => rw [hwaiting]
  | decides htask hbefore hcreating hother hafter hw => rw [hw]
  | enlists htask hbefore hstart hafter hcells hwaiting =>
    rw [← hadvance.asks _ _ _ htask] at ha
    rw [hwaiting, (h.acyclic.start_eq_true hstart).1, Waiting.target?_insert, if_neg ha]
  | sleeps htask hbefore hafter hw => rw [hw]
  | rises htask hbefore hafter hw =>
    rw [hw]
    rw [← hadvance.asks _ _ _ htask] at ha
    exact (Waiting.target?_erase _ _ _).trans (if_neg ha)

/-- A thread that stands with a cell has entered its resolution. -/
theorem number_of_stands (hphase : thread.phase ≠ .running) : numbers i = some r := by
  obtain ⟨n, hnumber⟩ := h.exists_number hadvance.before hphase
  exact (hadvance.kept hnumber).symm.trans hadvance.self ▸ hnumber

/-- A wait is entered only for somebody who does not wait for the waiter. -/
theorem acyclic_after : m'.world.waiting.Acyclic := by
  cases hadvance.turn with
  | runs hbefore hafter hwaiting => exact hwaiting ▸ h.acyclic
  | decides htask hbefore hcreating hother hafter hw => exact hw ▸ h.acyclic
  | @enlists slot resolution next asked creator waiting htask hbefore hstart hafter hcells hwaiting =>
    obtain ⟨rfl, hwalk⟩ := h.acyclic.start_eq_true hstart
    have hcreator : creator ≠ resolution.number := by
      have hnumber := number_of_stands h hadvance (by simp [hbefore])
      rw [hadvance.asks _ _ _ htask]
      rintro rfl
      exact (h.deciding hadvance.before hbefore).1 hnumber
    rw [hwaiting]
    apply h.acyclic.insert
    intro hback
    rcases Relation.reflTransGen_iff_eq_or_transGen.mp hback with heq | hback
    · exact hcreator heq.symm
    · exact hwalk hback
  | sleeps htask hbefore hafter hw => exact hw ▸ h.acyclic
  | rises htask hbefore hafter hw => exact hw ▸ h.acyclic.erase _

/-- Whoever is recorded as waiting after the move stands with a cell or has been woken. -/
theorem recorded_after {a b : Nat} (hleads : m'.world.waiting.Leads a b) :
    ∃ (j : Nat) (other : Thread V E (Reply V)), numbers' j = some a ∧
      m'.threads[j]? = some other ∧ other.phase.Waits := by
  by_cases ha : a = r
  · subst ha
    refine ⟨i, thread', hadvance.self, hadvance.after, ?_⟩
    have hbefore (hleads : m.world.waiting.Leads a b) : thread.phase.Waits := by
      obtain ⟨j, other, hj, hother, hwaits⟩ := h.recorded hleads
      obtain rfl := hadvance.injective (hadvance.kept hj) hadvance.self
      exact Option.some.inj (hadvance.before.symm.trans hother) ▸ hwaits
    cases hadvance.turn with
    | runs hnot hafter hwaiting => exact absurd (hbefore (hwaiting ▸ hleads)) hnot
    | decides htask hnot hcreating hother hafter hw => exact absurd (hbefore (hw ▸ hleads)) hnot
    | enlists htask hdeciding hstart hafter hcells hwaiting => exact hafter ▸ trivial
    | sleeps htask hsettling hafter hw => exact hafter ▸ trivial
    | rises htask hnotified hafter hw =>
      rw [hw, Waiting.Leads, Waiting.target?_erase, hadvance.asks _ _ _ htask] at hleads
      simp at hleads
  · rw [Waiting.Leads, target?_after h hadvance ha] at hleads
    obtain ⟨j, other, hj, hother, hwaits⟩ := h.recorded hleads
    have hij : i ≠ j := by
      rintro rfl
      exact ha (Option.some.inj ((hadvance.kept hj).symm.trans hadvance.self))
    rcases hadvance.effect.other hij with hsame | ⟨announced, -, hroused⟩
    · exact ⟨j, other, hadvance.kept hj, hsame.trans hother, hwaits⟩
    · refine ⟨j, other.roused announced, hadvance.kept hj, ?_, roused_waits hwaits⟩
      rw [hroused, hother]
      rfl

/-- Whoever decides whether to wait after the move holds a cell that somebody else is making. -/
theorem deciding_after (hother : m'.threads[j]? = some other) (hphase : other.phase = .deciding slot c) :
    numbers' j ≠ some c ∧ m'.world.cells slot = .creating c := by
  by_cases hij : j = i
  · subst hij
    obtain rfl := Option.some.inj (hadvance.after.symm.trans hother)
    cases hadvance.turn with
    | runs hbefore hafter hwaiting => simp [hphase] at hafter
    | decides htask hbefore hcreating hne hafter hw =>
      rw [hafter] at hphase
      obtain ⟨rfl, rfl⟩ := Phase.deciding.inj hphase
      refine ⟨fun hself => hne ?_, hw ▸ hcreating⟩
      rw [hadvance.asks _ _ _ htask]
      exact Option.some.inj (hself.symm.trans hadvance.self)
    | _ => simp_all
  · obtain ⟨before, hbefore, -, -, hsame | ⟨_, -, hnotified⟩⟩ := hadvance.other_before hij hother
    · rw [hphase] at hsame
      obtain ⟨hne, hcreating⟩ := h.deciding hbefore hsame
      exact ⟨hadvance.others j hij ▸ hne,
        creating_held h hadvance hcreating hbefore (by rw [hsame]; rfl)⟩
    · simp [hphase] at hnotified

/-- Whoever is about to fall asleep after the move waits for somebody who is making the value. -/
theorem settling_after {n : Nat} (hother : m'.threads[j]? = some other) (hnumber : numbers' j = some n)
    (hphase : other.phase = .settling slot) :
    ∃ c, m'.world.waiting.Leads n c ∧ m'.world.cells slot = .creating c := by
  by_cases hij : j = i
  · subst hij
    obtain rfl := Option.some.inj (hadvance.after.symm.trans hother)
    obtain rfl := Option.some.inj (hnumber.symm.trans hadvance.self)
    cases hadvance.turn with
    | runs hbefore hafter hwaiting => simp [hphase] at hafter
    | @enlists asked resolution next held creator waiting htask hbefore hstart hafter hcells hwaiting =>
      rw [hafter] at hphase
      obtain rfl := Phase.settling.inj hphase
      obtain ⟨resolution', next', htask'⟩ :=
        h.orderly.asking_of_phase hadvance.before hbefore rfl
      obtain ⟨rfl, -, -⟩ := Task.acquire.inj (htask.symm.trans htask')
      refine ⟨creator, ?_, hcells ▸ (h.deciding hadvance.before hbefore).2⟩
      rw [hwaiting, (h.acyclic.start_eq_true hstart).1, Waiting.Leads, Waiting.target?_insert,
        hadvance.asks _ _ _ htask, if_pos rfl]
    | _ => simp_all
  · obtain ⟨before, hbefore, -, -, hsame | ⟨_, -, hnotified⟩⟩ := hadvance.other_before hij hother
    · rw [hphase] at hsame
      have hbeforeNumber := hadvance.others j hij ▸ hnumber
      obtain ⟨c, hleads, hcreating⟩ := h.settling hbefore hbeforeNumber hsame
      have hn : n ≠ r := by
        rintro rfl
        exact hij (hadvance.injective hnumber hadvance.self)
      exact ⟨c, (target?_after h hadvance hn).trans hleads,
        creating_held h hadvance hcreating hbefore (by rw [hsame]; rfl)⟩
    · simp [hphase] at hnotified

/-- Whoever sleeps after the move waits for somebody who is making the value or is about to wake it:
the maker tells everybody right after settling the cell, and by then nobody sleeps there. -/
theorem asleep_after {n : Nat} (hother : m'.threads[j]? = some other) (hnumber : numbers' j = some n)
    (hphase : other.phase = .asleep slot) :
    ∃ c, m'.world.waiting.Leads n c ∧ (m'.world.cells slot = .creating c ∨
      ∃ (k : Nat) (maker : Thread V E (Reply V)), numbers' k = some c ∧
        m'.threads[k]? = some maker ∧ maker.task.Announces slot ∧ first.Ended m' k slot c) := by
  by_cases hij : j = i
  · subst hij
    obtain rfl := Option.some.inj (hadvance.after.symm.trans hother)
    obtain rfl := Option.some.inj (hnumber.symm.trans hadvance.self)
    cases hadvance.turn with
    | runs hbefore hafter hwaiting => simp [hphase] at hafter
    | @sleeps asked resolution next held htask hbefore hafter hw =>
      rw [hafter] at hphase
      obtain rfl := Phase.asleep.inj hphase
      obtain ⟨resolution', next', htask'⟩ :=
        h.orderly.asking_of_phase hadvance.before hbefore rfl
      obtain ⟨rfl, -, -⟩ := Task.acquire.inj (htask.symm.trans htask')
      have hself := number_of_stands h hadvance (by simp [hbefore])
      obtain ⟨c, hleads, hcreating⟩ := h.settling hadvance.before hself hbefore
      exact ⟨c, hw ▸ hleads, Or.inl (hw ▸ hcreating)⟩
    | _ => simp_all
  · obtain ⟨before, hbefore, -, -, hsame | ⟨_, -, hnotified⟩⟩ := hadvance.other_before hij hother
    · rw [hphase] at hsame
      have hbeforeNumber := hadvance.others j hij ▸ hnumber
      obtain ⟨c, hleads, hmaker⟩ := h.asleep hbefore hbeforeNumber hsame
      have hn : n ≠ r := by
        rintro rfl
        exact hij (hadvance.injective hnumber hadvance.self)
      refine ⟨c, (target?_after h hadvance hn).trans hleads, ?_⟩
      rcases hmaker with hcreating | ⟨k, maker, hk, hmaker, hannounces, hended⟩
      · rcases creating_after h hadvance hcreating with hcell | ⟨hi, -, hannounces, hnot⟩
        · exact Or.inl hcell
        · exact Or.inr ⟨i, thread', hadvance.kept hi, hadvance.after, hannounces,
            m, m', h.reached, hcreating, hadvance.moves, hnot, .refl⟩
      · by_cases hki : k = i
        · subst hki
          obtain rfl := Option.some.inj (hadvance.before.symm.trans hmaker)
          have hwoken := hadvance.effect.wakes hannounces (Ne.symm hij)
          rw [hbefore, hother] at hwoken
          have hroused := congrArg Thread.phase (Option.some.inj hwoken)
          simp [Thread.roused, hsame, hphase] at hroused
        · obtain ⟨start, stop, hstart, hcreating, hmoves, hnot, hreach⟩ := hended
          rcases hadvance.effect.other (Ne.symm hki) with hsame | ⟨announced, -, hroused⟩
          · exact Or.inr ⟨k, maker, hadvance.kept hk, hsame.trans hmaker, hannounces, start, stop,
              hstart, hcreating, hmoves, hnot, hreach.tail ⟨i, hadvance.moves⟩⟩
          · refine Or.inr ⟨k, maker.roused announced, hadvance.kept hk, ?_, ?_, start, stop,
              hstart, hcreating, hmoves, hnot, hreach.tail ⟨i, hadvance.moves⟩⟩
            · rw [hroused, hmaker]
              rfl
            · rwa [roused_task]
    · simp [hphase] at hnotified

/-- The accounts after a move. -/
theorem advance : Accounts R first numbers' m' where
  orderly := h.orderly.effect hadvance.before hadvance.effect
  reached := h.reached.tail ⟨i, hadvance.moves⟩
  descends := hadvance.descends
  dormant {j other} hother hnumber := by
    have hij : j ≠ i := by
      rintro rfl
      simp [hadvance.self] at hnumber
    obtain ⟨before, hbefore, htask, hmaking, hphase⟩ := hadvance.other_before hij hother
    obtain ⟨c, q, rfl⟩ := h.dormant hbefore (hadvance.others j hij ▸ hnumber)
    obtain ⟨task, phase, making⟩ := other
    simp at htask hmaking hphase
    exact ⟨c, q, by simp [htask, hmaking, hphase]⟩
  follows {j n other} hother hnumber := by
    by_cases hij : j = i
    · subst hij
      obtain rfl := Option.some.inj (hadvance.after.symm.trans hother)
      exact Option.some.inj (hnumber.symm.trans hadvance.self) ▸ hadvance.follows
    · obtain ⟨before, hbefore, htask, hmaking, -⟩ := hadvance.other_before hij hother
      rw [← htask, ← hmaking]
      exact h.follows hbefore (hadvance.others j hij ▸ hnumber)
  known := hadvance.known
  injective := hadvance.injective
  creator := creator_after h hadvance
  acyclic := acyclic_after h hadvance
  recorded := recorded_after h hadvance
  deciding := deciding_after h hadvance
  settling := settling_after h hadvance
  asleep := asleep_after h hadvance

omit hadvance

/-- A thread that has entered its resolution moves on for it. -/
theorem advance_of_number (hmove : m.Moves i m') (heffect : m.Effect i thread m')
    (hthread : m.threads[i]? = some thread) (hnumber : numbers i = some r) :
    ∃ thread', Advance R numbers numbers r i thread thread' m m' := by
  have hfollows := h.follows hthread hnumber
  obtain ⟨thread', hthread', hdescends, hnext, hfollows', htransfer, hturn⟩ :=
    heffect.mover (Conduct.lawful_descending R r) hthread h.descends
      (fun _ => h.orderly.asking hthread) hfollows
  refine ⟨thread', hmove, heffect, hthread, hthread', ?_, hdescends, hfollows', htransfer, hturn,
    hnumber, fun _ _ => rfl, id, fun hj => Nat.lt_of_lt_of_le (h.known hj) hnext, h.injective⟩
  intro slot resolution next htask
  rw [htask] at hfollows
  exact hfollows.1.1

/-- A thread that has yet to enter its resolution enters the next one. -/
theorem advance_of_dormant (hmove : m.Moves i m') (heffect : m.Effect i thread m')
    (hthread : m.threads[i]? = some thread) (hnumber : numbers i = none) :
    ∃ thread', Advance R numbers (Function.update numbers i (some m.world.nextResolution))
      m.world.nextResolution i thread thread' m m' := by
  obtain ⟨c, q, rfl⟩ := h.dormant hthread hnumber
  have hfresh {j n : Nat} (hj : numbers j = some n) : n ≠ m.world.nextResolution :=
    Nat.ne_of_lt (h.known hj)
  cases heffect with
  | act htask =>
    obtain ⟨rfl, rfl⟩ := Task.act.inj htask
    refine ⟨_, hmove, .act htask, hthread, update_threads_self hthread _ _, ?_, h.descends,
      ⟨⟨rfl, by simp⟩, fun reply => rfl⟩, .neither rfl rfl, .runs (by simp [Phase.Waits]) rfl rfl,
      Function.update_self .., fun j hj => Function.update_of_ne hj .., ?_, ?_, ?_⟩
    · intro slot resolution next hacquire
      cases hacquire
    · intro j n hj
      have hji : j ≠ i := by
        rintro rfl
        simp [hnumber] at hj
      rw [Function.update_of_ne hji, hj]
    · intro j n hj
      by_cases hji : j = i
      · subst hji
        rw [Function.update_self] at hj
        obtain rfl := Option.some.inj hj
        exact Nat.lt_succ_self _
      · rw [Function.update_of_ne hji] at hj
        exact Nat.lt_succ_of_lt (h.known hj)
    · intro j k n hj hk
      by_cases hji : j = i <;> by_cases hki : k = i
      · rw [hji, hki]
      · subst hji
        rw [Function.update_self] at hj
        rw [Function.update_of_ne hki] at hk
        exact absurd (Option.some.inj hj).symm (hfresh hk)
      · subst hki
        rw [Function.update_self] at hk
        rw [Function.update_of_ne hji] at hj
        exact absurd (Option.some.inj hk).symm (hfresh hj)
      · rw [Function.update_of_ne hji] at hj
        rw [Function.update_of_ne hki] at hk
        exact h.injective hj hk
  | _ htask => cases htask

/-- The accounts can be kept along every move. -/
theorem moves (hmove : m.Moves i m') : ∃ numbers', Accounts R first numbers' m' := by
  obtain ⟨thread, hthread, heffect⟩ := hmove.effect
  cases hnumber : numbers i with
  | none =>
    obtain ⟨thread', hadvance⟩ := h.advance_of_dormant hmove heffect hthread hnumber
    exact ⟨_, h.advance hadvance⟩
  | some r =>
    obtain ⟨thread', hadvance⟩ := h.advance_of_number hmove heffect hthread hnumber
    exact ⟨_, h.advance hadvance⟩

end Accounts

end Machine

/-! ### Runs -/

/-- No value is being made, and nobody waits for one. -/
def World.Idle (w : World V E) : Prop :=
  (∀ slot r, w.cells slot ≠ .creating r) ∧ w.waiting = .empty

namespace Machine

variable [Hashed V] {R : Ranking ρ} {w : World V E} {opened : List String}
  {requests : List (ComponentId × Query V)} {m : Machine V E (Reply V)}

/-- Threads about to make top-level requests in a world where nobody is making anything. -/
theorem accounts_racing (hw : w.Descends R) (hidle : w.Idle) (opened : List String)
    (requests : List (ComponentId × Query V)) :
    Accounts R (racing w opened requests) (fun _ => none) (racing w opened requests) := by
  have hnew {i : Nat} {thread : Thread V E (Reply V)}
      (hthread : (racing w opened requests).threads[i]? = some thread) : thread.Dormant := by
    simp only [racing, start, List.map_map, List.getElem?_map, Option.map_eq_some_iff] at hthread
    obtain ⟨⟨c, q⟩, -, rfl⟩ := hthread
    exact ⟨c, q, rfl⟩
  have hphase {i : Nat} {thread : Thread V E (Reply V)}
      (hthread : (racing w opened requests).threads[i]? = some thread) : thread.phase = .running := by
    obtain ⟨c, q, rfl⟩ := hnew hthread
    rfl
  refine ⟨orderly_racing w opened requests, .refl, hw, fun hthread _ => hnew hthread, by simp, by simp,
    by simp, fun hcreating => absurd hcreating (hidle.1 _ _), ?_, ?_, ?_, by simp, by simp⟩
  · exact hidle.2 ▸ Waiting.acyclic_empty
  · intro a b hleads
    have hempty : w.waiting.target? a = some b := hleads
    simp [hidle.2] at hempty
  · intro i c thread slot hthread hdeciding
    simp [hphase hthread] at hdeciding

/-- Accounts can be kept along every run. -/
theorem exists_accounts (hw : w.Descends R) (hidle : w.Idle)
    (hreach : (racing w opened requests).Reaches m) :
    ∃ numbers, Accounts R (racing w opened requests) numbers m := by
  induction hreach with
  | refl => exact ⟨_, accounts_racing hw hidle opened requests⟩
  | tail _ hmove ih =>
    obtain ⟨numbers, h⟩ := ih
    obtain ⟨i, hmove⟩ := hmove
    exact h.moves hmove

end Machine

/-! ### Small worlds -/

/-- Nothing has happened yet in a world that only stores bindings. -/
theorem World.idle_ofBindings (bindings : List (Binding Unit Unit)) : (World.ofBindings bindings).Idle :=
  ⟨fun _ _ => nofun, rfl⟩

/-- A world of providers descends if each of them needs only what is below it. -/
theorem World.descends_ofBindings {R : Ranking ρ} {bindings : List (Binding Unit Unit)}
    (h : ∀ binding ∈ bindings, ∃ n needs, binding = .nth n needs ∧
      ∀ k ∈ needs, R.below (R.site (Key.of (.nth k)).site) (R.site (Key.of (.nth n)).site)) :
    (World.ofBindings bindings).Descends R := by
  intro component hcomponent
  obtain rfl := List.mem_singleton.mp hcomponent
  refine ⟨fun binding hbinding => ?_, by simp [ComponentConfig.default]⟩
  obtain ⟨n, needs, rfl, hneeds⟩ := h binding hbinding
  refine Binding.ofProvider_descends (fun context => Dependency.all_descends fun dependency hmem => ?_)
    fun _ => Action.descends_pure _
  obtain ⟨k, hk, rfl⟩ := List.mem_map.mp hmem
  exact Dependency.inject_descends (hneeds k hk) context

end Injection

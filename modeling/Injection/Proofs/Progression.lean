import Injection.Proofs.Interleaving

/-!
# Parts of a task in progress

A thread's task is usually a part in progress, such as the call for a value, and something to go on
with. How the part develops depends only on the moves of the machine: `Machine.Performs` follows it
from machine to machine, and `Machine.Returns` says that it has come to a result.
-/

namespace Injection

variable {V E α β γ : Type}

/-- Whether a wait is refused. -/
def Grant.isCycle : Grant V → Bool
  | .cycle => true
  | .ready _ => false
  | .granted => false

/-- A wait that is refused is answered so. -/
theorem Grant.eq_cycle {grant : Grant V} (h : grant.isCycle = true) : grant = .cycle := by
  cases grant with
  | cycle => rfl
  | ready object => simp [isCycle] at h
  | granted => simp [isCycle] at h

/-- What is answered to a resolution that looks into a cell, unless it has to wait. -/
def World.grant? (w : World V E) (slot : Slot) (resolution : Resolution) : Option (Grant V) :=
  match w.cells slot with
  | .ready object => some (.ready object)
  | .empty => some .granted
  | .creating creator => if creator = resolution.number then some .cycle else none

/-- A resolution finds a value, is granted an empty cell, or asks for what it is making itself. -/
theorem World.cells_of_grant? {w : World V E} {slot : Slot} {resolution : Resolution}
    {grant : Grant V} (h : w.grant? slot resolution = some grant) :
    match grant with
    | .ready object => w.cells slot = .ready object
    | .granted => w.cells slot = .empty
    | .cycle => w.cells slot = .creating resolution.number := by
  unfold grant? at h
  split at h
  · next hcell => exact Option.some.inj h ▸ hcell
  · next hcell => exact Option.some.inj h ▸ hcell
  · next hcell =>
    split at h
    · next heq => exact Option.some.inj h ▸ heq ▸ hcell
    · simp at h

namespace Machine

variable [Hashed V]

variable {m m' m'' : Machine V E α} {i : Nat}

/-- What the next step of a thread answers to its asking for a cell, if that step answers. -/
def grant? (m : Machine V E α) (i : Nat) (slot : Slot) (resolution : Resolution) :
    Option (Grant V) :=
  match (m.threads[i]?).map Thread.phase with
  | some .running | some (.woken _) => m.world.grant? slot resolution
  | some (.deciding _ creator) =>
    if (m.world.waiting.start resolution.number creator).1 then none else some .cycle
  | _ => none

/-- What the next step of a thread makes of the part of its task that is in progress; `none` if that
part has ended. -/
def develop (m : Machine V E α) (i : Nat) : Task V E β → Option (Task V E β)
  | .done _ => none
  | .act _ next => some (next m.world)
  | .acquire slot resolution next =>
    match m.grant? i slot resolution with
    | some grant => some (next grant)
    | none => some (.acquire slot resolution next)
  | .settle _ _ next => some next
  | .notify _ next => some next
  | .call request next => some (request.body.bind next)
  | .meet gate next => some (if gate ∈ m.gates.opened then next else .meet gate next)

/-- While the machine moves from `m` to another one, the part `task` of what a thread does develops
into another part. -/
inductive Performs (m : Machine V E α) (i : Nat) (task : Task V E β) :
    Machine V E α → Task V E β → Prop
  | refl : Performs m i task m task
  | other {before after : Machine V E α} {part j} (h : Performs m i task before part) (hne : i ≠ j)
    (hmove : before.Moves j after) : Performs m i task after part
  | own {before after : Machine V E α} {part part'} (h : Performs m i task before part)
    (hstep : before.step i = some after) (hpart : before.develop i part = some part') :
    Performs m i task after part'
  | release {before : Machine V E α} {gate next thread thread'}
    (h : Performs m i task before (.meet gate next)) (hthread : before.threads[i]? = some thread)
    (hgate : thread.beyondGate? = some thread') (halone : before.step i = none) :
    Performs m i task (before.update i thread' before.world) next

/-- A thread is about to do a task, whatever it goes on with, and has come to the task's result when
the machine has moved to another one. -/
def Returns (m : Machine V E α) (i : Nat) (task : Task V E β) (result : β)
    (after : Machine V E α) : Prop :=
  (∃ thread, m.threads[i]? = some thread ∧ ∃ rest : β → Task V E α, thread.task = task.bind rest) ∧
    m.Performs i task after (.done result)

/-- A part in progress develops by the same moves whatever comes after it. -/
theorem develop_bind {task part : Task V E β} (h : m.develop i task = some part)
    (f : β → Task V E γ) : m.develop i (task.bind f) = some (part.bind f) := by
  cases task with
  | done result => simp [develop] at h
  | acquire slot resolution next =>
    simp only [develop, Task.bind] at h ⊢
    cases hgrant : m.grant? i slot resolution with
    | none =>
      rw [hgrant] at h
      simp only [Option.some.injEq] at h ⊢
      exact h ▸ rfl
    | some grant =>
      rw [hgrant] at h
      simp only [Option.some.injEq] at h ⊢
      exact h ▸ rfl
  | call request next =>
    simp only [develop, Task.bind, Option.some.injEq] at h ⊢
    rw [← h, Task.bind_assoc]
  | meet gate next =>
    simp only [develop, Task.bind, Option.some.injEq] at h ⊢
    rw [← h]
    split <;> rfl
  | _ =>
    simp only [develop, Task.bind, Option.some.injEq] at h ⊢
    rw [← h]

/-- Only a part that has ended does not develop. -/
theorem eq_done_of_develop {task : Task V E β} (h : m.develop i task = none) :
    ∃ result, task = .done result := by
  cases task with
  | done result => exact ⟨result, rfl⟩
  | acquire slot resolution next =>
    simp only [develop] at h
    split at h <;> simp at h
  | _ => simp [develop] at h

omit [Hashed V] in
/-- What is answered to a thread that looks into a cell. -/
theorem grant?_of_looks {thread : Thread V E α} {slot : Slot} (hthread : m.threads[i]? = some thread)
    (hlooks : m.Looks thread slot) (resolution : Resolution) :
    m.grant? i slot resolution = m.world.grant? slot resolution := by
  rcases hlooks with ⟨hphase, -⟩ | ⟨other, hphase⟩ <;> simp [grant?, hthread, hphase]

omit [Hashed V] in
/-- Only a thread that looks into a cell, or decides whether to wait for it, is answered. -/
theorem grant?_eq_some {thread : Thread V E α} {slot : Slot} {resolution : Resolution}
    {grant : Grant V} (hthread : m.threads[i]? = some thread)
    (h : m.grant? i slot resolution = some grant) :
    m.world.grant? slot resolution = some grant ∧
        (thread.phase = .running ∨ ∃ other, thread.phase = .woken other) ∨
      grant = .cycle ∧ ∃ other creator, thread.phase = .deciding other creator ∧
        (m.world.waiting.start resolution.number creator).1 = false := by
  simp only [grant?, hthread, Option.map_some] at h
  cases hphase : thread.phase with
  | running =>
    rw [hphase] at h
    exact Or.inl ⟨h, Or.inl rfl⟩
  | woken other =>
    rw [hphase] at h
    exact Or.inl ⟨h, Or.inr ⟨other, rfl⟩⟩
  | deciding other creator =>
    rw [hphase] at h
    dsimp only at h
    split at h
    · simp at h
    · next hstart =>
      exact Or.inr ⟨(Option.some.inj h).symm, other, creator, rfl, by simpa using hstart⟩
  | _ =>
    rw [hphase] at h
    simp at h

/-- A thread's step does to its task what is said of the part in progress. -/
theorem develop_step {thread : Thread V E α} (hthread : m.threads[i]? = some thread)
    (hstep : m.step i = some m') :
    ∃ thread', m'.threads[i]? = some thread' ∧ m.develop i thread.task = some thread'.task := by
  obtain ⟨other, hother, heffect⟩ := step_effect hstep
  obtain rfl := Option.some.inj (hthread.symm.trans hother)
  cases heffect with
  | notify htask =>
    refine ⟨_, (wake_threads _ _ i).trans (by rw [update_threads_self hthread]; rfl), ?_⟩
    rw [roused_task, htask]
    rfl
  | arrive htask hclosed => exact ⟨thread, hthread, by simp [htask, develop, hclosed]⟩
  | pass htask hopen =>
    have hopen := hopen.resolve_right (by simp [hstep])
    exact ⟨_, update_threads_self hthread _ _, by simp [htask, develop, hopen]⟩
  | found htask hlooks hcell =>
    have hgrant := grant?_of_looks hthread hlooks
    exact ⟨_, update_threads_self hthread _ _, by simp [htask, develop, hgrant, World.grant?, hcell]⟩
  | begun htask hlooks hcell =>
    have hgrant := grant?_of_looks hthread hlooks
    exact ⟨_, update_threads_self hthread _ _, by simp [htask, develop, hgrant, World.grant?, hcell]⟩
  | reentered htask hlooks hcell =>
    have hgrant := grant?_of_looks hthread hlooks
    exact ⟨_, update_threads_self hthread _ _, by simp [htask, develop, hgrant, World.grant?, hcell]⟩
  | met htask hlooks hcell hne =>
    have hgrant := grant?_of_looks hthread hlooks
    exact ⟨_, update_threads_self hthread _ _, by simp [htask, develop, hgrant, World.grant?, hcell, hne]⟩
  | enlisted htask hphase hstart =>
    exact ⟨_, update_threads_self hthread _ _,
      by simp [htask, develop, grant?, hthread, hphase, hstart]⟩
  | refused htask hphase hstart =>
    exact ⟨_, update_threads_self hthread _ _,
      by simp [htask, develop, grant?, hthread, hphase, hstart]⟩
  | slept htask hphase =>
    exact ⟨_, update_threads_self hthread _ _, by simp [htask, develop, grant?, hthread, hphase]⟩
  | risen htask hphase =>
    exact ⟨_, update_threads_self hthread _ _, by simp [htask, develop, grant?, hthread, hphase]⟩
  | _ htask => exact ⟨_, update_threads_self hthread _ _, by simp [htask, develop]⟩

/-- The moves of one thread leave the task of another alone. -/
theorem Moves.other_task {j : Nat} {thread : Thread V E α} (h : m.Moves j m') (hne : i ≠ j)
    (hthread : m.threads[i]? = some thread) :
    ∃ thread', m'.threads[i]? = some thread' ∧ thread'.task = thread.task := by
  obtain ⟨mover, -, heffect⟩ := h.effect
  rcases heffect.other (Ne.symm hne) with hsame | ⟨slot, -, hroused⟩
  · exact ⟨thread, hsame.trans hthread, rfl⟩
  · exact ⟨_, hroused.trans (by rw [hthread]; rfl), roused_task slot thread⟩

namespace Performs

variable {task part : Task V E β}

/-- While a part develops the machine makes moves. -/
theorem reaches (h : m.Performs i task m' part) : m.Reaches m' := by
  induction h with
  | refl => exact .refl
  | other h hne hmove ih => exact ih.tail ⟨_, hmove⟩
  | own h hstep hpart ih => exact ih.tail ⟨i, .step hstep⟩
  | release h hthread hgate halone ih => exact ih.tail ⟨i, .release hthread hgate halone⟩

/-- A part may develop in two stretches. -/
theorem trans {part' : Task V E β} (h : m.Performs i task m' part)
    (h' : m'.Performs i part m'' part') : m.Performs i task m'' part' := by
  induction h' with
  | refl => exact h
  | other _ hne hmove ih => exact .other ih hne hmove
  | own _ hstep hpart ih => exact .own ih hstep hpart
  | release _ hthread hgate halone ih => exact .release ih hthread hgate halone

/-- A part that is followed is the part in progress of what the thread does. -/
theorem thread_task (h : m.Performs i task m' part) {rest : β → Task V E α}
    {thread : Thread V E α} (hthread : m.threads[i]? = some thread)
    (htask : thread.task = task.bind rest) :
    ∃ thread', m'.threads[i]? = some thread' ∧ thread'.task = part.bind rest := by
  induction h with
  | refl => exact ⟨thread, hthread, htask⟩
  | other h hne hmove ih =>
    obtain ⟨thread', hthread', htask'⟩ := ih
    obtain ⟨thread'', hthread'', hsame⟩ := hmove.other_task hne hthread'
    exact ⟨thread'', hthread'', hsame.trans htask'⟩
  | own h hstep hpart ih =>
    obtain ⟨thread', hthread', htask'⟩ := ih
    obtain ⟨thread'', hthread'', hdevelop⟩ := develop_step hthread' hstep
    rw [htask', develop_bind hpart] at hdevelop
    exact ⟨thread'', hthread'', (Option.some.inj hdevelop).symm⟩
  | release h hthread' hgate halone ih =>
    obtain ⟨other, hother, htask'⟩ := ih
    obtain rfl := Option.some.inj (hother.symm.trans hthread')
    refine ⟨_, update_threads_self hother _ _, ?_⟩
    obtain ⟨task', phase, making⟩ := other
    subst htask'
    exact Option.some.inj hgate ▸ rfl

/-- Nothing comes of a part that has ended. -/
theorem of_done {result : β} (h : m.Performs i task m' part) (htask : task = .done result) :
    part = .done result := by
  induction h with
  | refl => exact htask
  | other h hne hmove ih => exact ih
  | own h hstep hpart ih => simp [ih, develop] at hpart
  | release h hthread hgate halone ih => simp at ih

/-- A part made of two is in the first, or has come from the result of the first into the second. -/
theorem split {f : β → Task V E γ} {whole : Task V E γ} (h : m.Performs i (task.bind f) m' whole) :
    (∃ part, m.Performs i task m' part ∧ whole = part.bind f) ∨
      ∃ result between, m.Performs i task between (.done result) ∧
        between.Performs i (f result) m' whole := by
  induction h with
  | refl => exact Or.inl ⟨task, .refl, rfl⟩
  | other h hne hmove ih =>
    rcases ih with ⟨part, hpart, rfl⟩ | ⟨result, between, hfirst, hsecond⟩
    · exact Or.inl ⟨part, .other hpart hne hmove, rfl⟩
    · exact Or.inr ⟨result, between, hfirst, .other hsecond hne hmove⟩
  | @own before after whole whole' h hstep hwhole ih =>
    rcases ih with ⟨part, hpart, rfl⟩ | ⟨result, between, hfirst, hsecond⟩
    · cases hdevelop : before.develop i part with
      | none =>
        obtain ⟨result, rfl⟩ := eq_done_of_develop hdevelop
        exact Or.inr ⟨result, before, hpart, .own .refl hstep hwhole⟩
      | some part' =>
        rw [develop_bind hdevelop] at hwhole
        exact Or.inl ⟨part', .own hpart hstep hdevelop, (Option.some.inj hwhole).symm⟩
    · exact Or.inr ⟨result, between, hfirst, .own hsecond hstep hwhole⟩
  | @release before gate next thread thread' h hthread hgate halone ih =>
    rcases ih with ⟨part, hpart, hwhole⟩ | ⟨result, between, hfirst, hsecond⟩
    · cases part with
      | done result =>
        have hstart : before.Performs i (f result) before (.meet gate next) :=
          (show Task.meet gate next = f result from hwhole) ▸ .refl
        exact Or.inr ⟨result, before, hpart, .release hstart hthread hgate halone⟩
      | meet gate' next' =>
        obtain ⟨rfl, rfl⟩ := Task.meet.inj hwhole
        exact Or.inl ⟨next', .release hpart hthread hgate halone, rfl⟩
      | _ => simp [Task.bind] at hwhole
    · exact Or.inr ⟨result, between, hfirst, .release hsecond hthread hgate halone⟩

/-- A part made of two that has ended went through the result of the first. -/
theorem split_done {f : β → Task V E γ} {result : γ}
    (h : m.Performs i (task.bind f) m' (.done result)) :
    ∃ first between, m.Performs i task between (.done first) ∧
      between.Performs i (f first) m' (.done result) := by
  rcases h.split with ⟨part, hpart, hwhole⟩ | hsplit
  · cases part with
    | done first =>
      have hstart : m'.Performs i (f first) m' (.done result) :=
        (show Task.done result = f first from hwhole) ▸ .refl
      exact ⟨first, m', hpart, hstart⟩
    | _ => simp [Task.bind] at hwhole
  · exact hsplit

/-- A part that has changed, not being at a gate, did so by a step of the thread. -/
theorem first (h : m.Performs i task m' part) (hgate : ∀ gate next, task ≠ .meet gate next) :
    part = task ∨ ∃ before after part', m.Performs i task before task ∧
      before.step i = some after ∧ before.develop i task = some part' ∧ part' ≠ task ∧
      after.Performs i part' m' part := by
  induction h with
  | refl => exact Or.inl rfl
  | other h hne hmove ih =>
    rcases ih with rfl | ⟨before, after, part', hbefore, hstep, hpart, hchanged, hafter⟩
    · exact Or.inl rfl
    · exact Or.inr ⟨before, after, part', hbefore, hstep, hpart, hchanged, .other hafter hne hmove⟩
  | @own before after part part' h hstep hpart ih =>
    rcases ih with rfl | ⟨before', after', first, hbefore, hstep', hpart', hchanged, hafter⟩
    · by_cases hsame : part' = part
      · exact Or.inl hsame
      · exact Or.inr ⟨before, after, part', h, hstep, hpart, hsame, .refl⟩
    · exact Or.inr ⟨before', after', first, hbefore, hstep', hpart', hchanged,
        .own hafter hstep hpart⟩
  | release h hthread hgate' halone ih =>
    rcases ih with htask | ⟨before, after, part', hbefore, hstep, hpart, hchanged, hafter⟩
    · exact absurd htask.symm (hgate _ _)
    · exact Or.inr ⟨before, after, part', hbefore, hstep, hpart, hchanged,
        .release hafter hthread hgate' halone⟩

end Performs

namespace Returns

variable {task : Task V E β} {result : β}

/-- While a task comes to a result the machine makes moves. -/
theorem reaches (h : m.Returns i task result m') : m.Reaches m' := h.2.reaches

/-- A task that has ended stays at its result. -/
theorem of_done {other : β} (h : m.Returns i (.done other) result m') : result = other :=
  Task.done.inj (h.2.of_done rfl)

/-- A task made of two comes to a result by way of the result of the first. -/
theorem bind {f : β → Task V E γ} {result : γ} (h : m.Returns i (task.bind f) result m') :
    ∃ first between, m.Returns i task first between ∧ between.Returns i (f first) result m' := by
  obtain ⟨⟨thread, hthread, rest, htask⟩, hperforms⟩ := h
  obtain ⟨first, between, hfirst, hsecond⟩ := hperforms.split_done
  rw [Task.bind_assoc] at htask
  obtain ⟨thread', hthread', htask'⟩ := hfirst.thread_task hthread htask
  exact ⟨first, between, ⟨⟨thread, hthread, _, htask⟩, hfirst⟩, ⟨⟨thread', hthread', rest, htask'⟩, hsecond⟩⟩

/-- A task that has not ended, not being at a gate, comes to a result by way of a step. -/
theorem first (h : m.Returns i task result m') (hdone : ∀ other, task ≠ .done other)
    (hgate : ∀ gate next, task ≠ .meet gate next) :
    ∃ before after part, m.Reaches before ∧
      (∃ thread, before.threads[i]? = some thread ∧
        ∃ rest : β → Task V E α, thread.task = task.bind rest) ∧
      before.step i = some after ∧ before.develop i task = some part ∧ part ≠ task ∧
      after.Returns i part result m' := by
  obtain ⟨⟨thread, hthread, rest, htask⟩, hperforms⟩ := h
  rcases hperforms.first hgate with heq | ⟨before, after, part, hbefore, hstep, hpart, hchanged, hafter⟩
  · exact absurd heq.symm (hdone result)
  · have hown : m.Performs i task after part := .own hbefore hstep hpart
    obtain ⟨thread', hthread', htask'⟩ := hbefore.thread_task hthread htask
    obtain ⟨thread'', hthread'', htask''⟩ := hown.thread_task hthread htask
    exact ⟨before, after, part, hbefore.reaches, ⟨thread', hthread', rest, htask'⟩, hstep, hpart,
      hchanged, ⟨⟨thread'', hthread'', rest, htask''⟩, hafter⟩⟩

end Returns

end Machine

end Injection

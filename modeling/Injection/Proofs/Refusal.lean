import Injection.Proofs.Accounts

/-!
# When a call for a value is refused

If every definition requests only what is below it, no resolutions ever wait for each other, so no
call for a value ought to end as a cyclic dependency. One does exactly if the record, followed from
the resolution that is making the value back to the one that asks for it, runs through the entry of
a resolution that has been woken but has yet to take its cell. Such an entry says nothing any more:
all others lead from a value to one that is below it, and cannot lead back.
-/

namespace Injection

variable {V E ρ : Type}

namespace Machine

open Relation (TransGen ReflTransGen)

variable [Hashed V] {m : Machine V E (Reply V)} {i : Nat} {slot made : Slot}
  {thread : Thread V E (Reply V)}

/-- The thread of the resolution of a number was woken, and has yet to take the cell it waited for. -/
def Stale (m : Machine V E (Reply V)) (number : Nat) : Prop :=
  ∃ (i : Nat) (thread : Thread V E (Reply V)) (slot : Slot) (resolution : Resolution)
    (next : Grant V → Task V E (Reply V)), m.threads[i]? = some thread ∧
      thread.phase = .notified slot ∧ thread.task = .acquire slot resolution next ∧
      resolution.number = number

namespace Accounts

variable {R : Ranking ρ} {first : Machine V E (Reply V)} {numbers : Nat → Option Nat} {r a b : Nat}
  (h : Accounts R first numbers m)
include h

/-- A thread that asks for a cell does so for its resolution. -/
theorem number_of_acquire {resolution : Resolution} {next : Grant V → Task V E (Reply V)}
    (hthread : m.threads[i]? = some thread) (htask : thread.task = .acquire slot resolution next) :
    numbers i = some resolution.number := by
  cases hnumber : numbers i with
  | none =>
    obtain ⟨c, q, rfl⟩ := h.dormant hthread hnumber
    cases htask
  | some r =>
    have hfollows := h.follows hthread hnumber
    rw [htask] at hfollows
    rw [hfollows.1.1]

/-- A thread asks only for what is below all values that it is making. -/
theorem below_of_acquire {resolution : Resolution} {next : Grant V → Task V E (Reply V)}
    (hthread : m.threads[i]? = some thread) (htask : thread.task = .acquire slot resolution next)
    (hmakes : m.Makes i made) : R.below (R.slot slot) (R.slot made) := by
  have hfollows := h.follows hthread (h.number_of_acquire hthread htask)
  rw [htask] at hfollows
  exact hfollows.1.2 made ((makes_iff hthread made).mp hmakes)

/-- Whoever is recorded as waiting has been woken, or asks for a value that the one it waits for is
making, or for one that has been settled and is about to be announced. -/
theorem entry_cases (hleads : m.world.waiting.Leads a b) :
    m.Stale a ∨ ∃ (j : Nat) (other : Thread V E (Reply V)) (asked : Slot) (resolution : Resolution)
      (next : Grant V → Task V E (Reply V)), numbers j = some a ∧ m.threads[j]? = some other ∧
        other.task = .acquire asked resolution next ∧
        ((∃ k, numbers k = some b ∧ m.Makes k asked) ∨
          ∃ (k : Nat) (maker : Thread V E (Reply V)), numbers k = some b ∧
            m.threads[k]? = some maker ∧ maker.task.Announces asked) := by
  obtain ⟨j, other, hj, hother, hwaits⟩ := h.recorded hleads
  cases hphase : other.phase with
  | settling asked =>
    obtain ⟨resolution, next, htask⟩ := h.orderly.asking_of_phase hother hphase rfl
    obtain ⟨c, hleads', hcreating⟩ := h.settling hother hj hphase
    obtain rfl := hleads'.unique hleads
    exact Or.inr ⟨j, other, asked, resolution, next, hj, hother, htask, Or.inl (h.creator hcreating)⟩
  | asleep asked =>
    obtain ⟨resolution, next, htask⟩ := h.orderly.asking_of_phase hother hphase rfl
    obtain ⟨c, hleads', hmaker⟩ := h.asleep hother hj hphase
    obtain rfl := hleads'.unique hleads
    refine Or.inr ⟨j, other, asked, resolution, next, hj, hother, htask, ?_⟩
    rcases hmaker with hcreating | ⟨k, maker, hk, hmaker, hannounces, -⟩
    · exact Or.inl (h.creator hcreating)
    · exact Or.inr ⟨k, maker, hk, hmaker, hannounces⟩
  | notified asked =>
    obtain ⟨resolution, next, htask⟩ := h.orderly.asking_of_phase hother hphase rfl
    have hnumber := (h.number_of_acquire hother htask).symm.trans hj
    exact Or.inl ⟨j, other, asked, resolution, next, hother, hphase, htask, Option.some.inj hnumber⟩
  | _ => simp [hphase, Phase.Waits] at hwaits

/-- Whoever is about to announce a cell asks for none, and is not recorded as waiting. -/
theorem not_announces_of_leads (hleads : m.world.waiting.Leads a b) (hnumber : numbers i = some a)
    (hthread : m.threads[i]? = some thread) : ¬ thread.task.Announces slot := by
  intro hannounces
  obtain ⟨j, other, hj, hother, hwaits⟩ := h.recorded hleads
  obtain rfl := h.injective hj hnumber
  obtain rfl := Option.some.inj (hother.symm.trans hthread)
  obtain ⟨asked, hasked⟩ := Phase.exists_asked hwaits
  obtain ⟨resolution, next, htask⟩ := h.orderly.asking hthread hasked
  rw [htask] at hannounces
  exact hannounces.elim

/-- An entry in force leads from somebody who is making a value at or below another to somebody who
is making a value below that other, or who is about to announce one. -/
theorem stale_or_below (hleads : m.world.waiting.Leads a b)
    (hmaker : ∃ j made, numbers j = some a ∧ m.Makes j made ∧
      (made = slot ∨ R.below (R.slot made) (R.slot slot))) :
    m.Stale a ∨
      (∃ j made, numbers j = some b ∧ m.Makes j made ∧ R.below (R.slot made) (R.slot slot)) ∨
      ∃ (k : Nat) (maker : Thread V E (Reply V)) (asked : Slot), numbers k = some b ∧
        m.threads[k]? = some maker ∧ maker.task.Announces asked := by
  obtain ⟨j, made, hj, hmakes, hmade⟩ := hmaker
  rcases h.entry_cases hleads with hstale | ⟨k, other, asked, resolution, next, hk, hother, htask, hforce⟩
  · exact Or.inl hstale
  · obtain rfl := h.injective hj hk
    have hasked : R.below (R.slot asked) (R.slot made) := h.below_of_acquire hother htask hmakes
    have hbelow : R.below (R.slot asked) (R.slot slot) := by
      rcases hmade with rfl | hmade
      · exact hasked
      · exact R.trans hasked hmade
    rcases hforce with ⟨k, hk, hmakes'⟩ | ⟨k, maker, hk, hmaker, hannounces⟩
    · exact Or.inr (Or.inl ⟨k, asked, hk, hmakes', hbelow⟩)
    · exact Or.inr (Or.inr ⟨k, maker, asked, hk, hmaker, hannounces⟩)

/-- A walk along the record, from somebody who is making a value at or below another to somebody who
asks for that other, runs through a stale entry: entries in force only lead further down. -/
theorem stale_of_walk (hwell : ∀ x, ¬ R.below x x) {resolution : Resolution}
    {next : Grant V → Task V E (Reply V)} (hthread : m.threads[i]? = some thread)
    (htask : thread.task = .acquire slot resolution next)
    (hwalk : TransGen m.world.waiting.Leads a resolution.number)
    (hmaker : ∃ j made, numbers j = some a ∧ m.Makes j made ∧
      (made = slot ∨ R.below (R.slot made) (R.slot slot))) :
    ∃ x y, ReflTransGen m.world.waiting.Leads a x ∧ m.world.waiting.Leads x y ∧
      ReflTransGen m.world.waiting.Leads y resolution.number ∧ m.Stale x := by
  have hself := h.number_of_acquire hthread htask
  induction hwalk using TransGen.head_induction_on with
  | @single a hleads =>
    rcases h.stale_or_below hleads hmaker with
      hstale | ⟨j, made, hj, hmakes, hbelow⟩ | ⟨k, maker, asked, hk, hmaker, hannounces⟩
    · exact ⟨a, _, .refl, hleads, .refl, hstale⟩
    · -- Nobody makes a value below one that it asks for.
      obtain rfl := h.injective hj hself
      exact absurd (R.trans (h.below_of_acquire hthread htask hmakes) hbelow) (hwell _)
    · obtain rfl := h.injective hk hself
      obtain rfl := Option.some.inj (hthread.symm.trans hmaker)
      rw [htask] at hannounces
      exact hannounces.elim
  | @head a c hleads hrest ih =>
    rcases h.stale_or_below hleads hmaker with
      hstale | ⟨j, made, hj, hmakes, hbelow⟩ | ⟨k, maker, asked, hk, hmaker, hannounces⟩
    · exact ⟨a, c, .refl, hleads, hrest.to_reflTransGen, hstale⟩
    · obtain ⟨x, y, hx, hxy, hy, hstale⟩ := ih ⟨j, made, hj, hmakes, Or.inr hbelow⟩
      exact ⟨x, y, .head hleads hx, hxy, hy, hstale⟩
    · obtain ⟨d, hnext, -⟩ := TransGen.head'_iff.mp hrest
      exact absurd hannounces (h.not_announces_of_leads hnext hk hmaker)

end Accounts

/-- A thread that decides whether to wait for a cell finds that the record leads from whoever is
making the value back to its own resolution, by way of a stale entry. -/
def Misled (m : Machine V E (Reply V)) (i : Nat) (slot : Slot) (number : Nat) : Prop :=
  ∃ (thread : Thread V E (Reply V)) (creator a b : Nat), m.threads[i]? = some thread ∧
    thread.phase = .deciding slot creator ∧ ReflTransGen m.world.waiting.Leads creator a ∧
      m.world.waiting.Leads a b ∧ ReflTransGen m.world.waiting.Leads b number ∧ m.Stale a

/-- A thread is refused a cell exactly if it is misled. -/
theorem Accounts.grant?_eq_cycle_iff {R : Ranking ρ} {first : Machine V E (Reply V)}
    {numbers : Nat → Option Nat} (h : Accounts R first numbers m) (hwell : ∀ x, ¬ R.below x x)
    {resolution : Resolution} {next : Grant V → Task V E (Reply V)}
    (hthread : m.threads[i]? = some thread) (htask : thread.task = .acquire slot resolution next) :
    m.grant? i slot resolution = some .cycle ↔ m.Misled i slot resolution.number := by
  have hself := h.number_of_acquire hthread htask
  constructor
  · intro hgrant
    rcases grant?_eq_some hthread hgrant with ⟨hlook, -⟩ | ⟨-, held, creator, hphase, hstart⟩
    · -- Nobody asks for a value that it is making itself.
      obtain ⟨j, hj, hmakes⟩ := h.creator (World.cells_of_grant? hlook)
      obtain rfl := h.injective hj hself
      exact absurd (h.below_of_acquire hthread htask hmakes) (hwell _)
    · obtain ⟨resolution', next', htask'⟩ := h.orderly.asking_of_phase hthread hphase rfl
      obtain ⟨rfl, -, -⟩ := Task.acquire.inj (htask.symm.trans htask')
      obtain ⟨j, hj, hmakes⟩ := h.creator (h.deciding hthread hphase).2
      obtain ⟨a, b, ha, hab, hb, hstale⟩ := h.stale_of_walk hwell hthread htask
        (h.acyclic.start_eq_false.mp hstart) ⟨j, slot, hj, hmakes, Or.inl rfl⟩
      exact ⟨thread, creator, a, b, hthread, hphase, ha, hab, hb, hstale⟩
  · rintro ⟨other, creator, a, b, hother, hphase, ha, hab, hb, -⟩
    obtain rfl := Option.some.inj (hthread.symm.trans hother)
    have hstart : (m.world.waiting.start resolution.number creator).1 = false :=
      h.acyclic.start_eq_false.mpr (TransGen.trans_right ha (TransGen.head' hab hb))
    simp [grant?, hthread, hphase, hstart]

/-- Top-level requests of definitions that request only what is below them. The step of a thread
refuses it a cell, as a cyclic dependency, exactly if the record leads from the resolution that is
making the value back to its own by way of a stale entry: one of a resolution that has been woken,
but has yet to take its cell. A call for a value fails only in this way or with the failure of its
own attempt. -/
theorem refused_iff_misled {R : Ranking ρ} (hwell : ∀ x, ¬ R.below x x) (w : World V E)
    (hw : w.Descends R) (hidle : w.Idle) (opened : List String)
    (requests : List (ComponentId × Query V)) (hreach : (racing w opened requests).Reaches m) (i : Nat)
    (slot : Slot) :
    (∀ (thread : Thread V E (Reply V)) resolution next, m.threads[i]? = some thread →
      thread.task = .acquire slot resolution next →
      (m.grant? i slot resolution = some .cycle ↔ m.Misled i slot resolution.number)) ∧
    ∀ context create e m', m.Returns i (Task.keep slot context create) (.error e) m' →
      (∃ m₁ m₂, m.Reaches m₁ ∧ m₁.Returns i create (.error e) m₂ ∧ m₂.Reaches m') ∨
        e = .cyclicDependency context.path ∧ ∃ between : Machine V E (Reply V), m.Reaches between ∧
          between.Misled i slot context.resolution.number ∧ between.Reaches m' := by
  obtain ⟨numbers, h⟩ := exists_accounts hw hidle hreach
  refine ⟨fun thread resolution next hthread htask => ?_, fun context create e m' hreturns => ?_⟩
  · exact h.grant?_eq_cycle_iff hwell hthread htask
  · rcases (h.orderly.keep_returns hreturns).2 e rfl with ⟨he, hrefused⟩ | hown
    · obtain ⟨between, thread, next, hbetween, hthread, htask, hgrant, hafter⟩ := hrefused
      obtain ⟨numbers', h'⟩ := exists_accounts hw hidle (hreach.trans hbetween)
      have hmisled := (h'.grant?_eq_cycle_iff hwell hthread htask).mp hgrant
      exact Or.inr ⟨he, between, hbetween, hmisled, hafter⟩
    · exact Or.inl hown

/-- A world of three types, each of which needs those of smaller numbers, if any. -/
def tower : World Unit Unit := .ofBindings [.nth 0 [], .nth 1 [0], .nth 2 [0, 1]]

/-- Two threads that ask for the upper two types. -/
def staggered : Machine Unit Unit (Reply Unit) :=
  racing tower [] [(0, .get (.nth 1) []), (0, .get (.nth 2) [])]

/-- Types ranked by their numbers. -/
def byNumber : Ranking Nat := ⟨fun site => site.type.code.toNat, fun _ => 0, (· < ·), Nat.lt_trans⟩

/-- Definitions in the tower request only types of smaller numbers. -/
theorem tower_descends : tower.Descends byNumber := by
  apply World.descends_ofBindings
  intro binding hbinding
  simp only [List.mem_cons, List.not_mem_nil, or_false] at hbinding
  rcases hbinding with rfl | rfl | rfl
  · exact ⟨0, [], rfl, by simp⟩
  · exact ⟨1, [0], rfl, by simp [byNumber, Key.site, Key.of, TypeInfo.nth]⟩
  · exact ⟨2, [0, 1], rfl, by simp [byNumber, Key.site, Key.of, TypeInfo.nth]⟩

/-- The first thread sleeps until the second has made the lowest value, and is woken. Before it takes
the cell, the second asks for what the first is making, and is refused. -/
def stagger : List Nat :=
  List.replicate 12 0 ++ List.replicate 13 1 ++ List.replicate 3 0 ++ List.replicate 12 1

/-- The second thread is misled by the entry of the first. -/
theorem refused_iff_misled_staggered :
    ∃ m, staggered.Reaches m ∧ m.grant? 1 (.nth 1) ⟨1, none⟩ = some .cycle ∧ m.Misled 1 (.nth 1) 1 := by
  have hrun : (staggered.follow stagger).any (fun m =>
      (m.grant? 1 (.nth 1) ⟨1, none⟩).any Grant.isCycle &&
        (m.threads[1]?).bind (·.task.asked?) = some (.nth 1, ⟨1, none⟩)) = true := by decide +kernel
  obtain ⟨m, hreach, hm⟩ := exists_of_follow hrun
  simp only [Bool.and_eq_true, decide_eq_true_eq] at hm
  obtain ⟨hgrant, hasks⟩ := hm
  have hcycle : m.grant? 1 (.nth 1) ⟨1, none⟩ = some .cycle := by
    obtain ⟨grant, hsome, hgrant⟩ := (Option.any_eq_true _ _).mp hgrant
    rw [hsome, Grant.eq_cycle hgrant]
  obtain ⟨thread, hthread, hasked⟩ := Option.bind_eq_some_iff.mp hasks
  obtain ⟨next, htask⟩ := Task.eq_acquire hasked
  have hiff := (refused_iff_misled (R := byNumber) Nat.lt_irrefl tower tower_descends
    (World.idle_ofBindings _) [] _ hreach 1 (.nth 1)).1 thread ⟨1, none⟩ next hthread htask
  exact ⟨m, hreach, hcycle, hiff.mp hcycle⟩

/-- Definitions that request only what is below them may fail with a cyclic dependency, though
nothing depends on itself. -/
theorem spurious_cycle :
    tower.Descends byNumber ∧ tower.Idle ∧ ∃ m, staggered.Reaches m ∧ ∃ e,
      (m.threads[1]?).bind Thread.result? = some (.error e) ∧
        e.rootCause = .cyclicDependency [.of (.nth 2), .of (.nth 1)] := by
  have hrun : (staggered.follow (stagger ++ List.replicate 6 1)).any (fun m =>
      ((m.threads[1]?).bind Thread.result?).any fun reply =>
        match reply with
        | .error e => decide (e.rootCause = .cyclicDependency [.of (.nth 2), .of (.nth 1)])
        | .ok _ => false) = true := by decide +kernel
  obtain ⟨m, hreach, hm⟩ := exists_of_follow hrun
  obtain ⟨reply, hresult, hm⟩ := (Option.any_eq_true _ _).mp hm
  refine ⟨tower_descends, World.idle_ofBindings _, m, hreach, ?_⟩
  cases reply with
  | error e => exact ⟨e, hresult, of_decide_eq_true hm⟩
  | ok value => simp at hm

end Machine

end Injection

import Injection.Proofs.Accounts

/-!
# Following the record of waits

Before a resolution goes to sleep, the record of waits is followed from the one it is about to wait for, entry by
entry, until the record ends or leads to the would-be waiter. Nothing bounds the walk but the record itself: in a
cycle that the waiter is not on it would go on for ever. Records that come from entering and forgetting waits have no
cycles, so every walk uses up entries and ends, and what it finds is whether the waiter is reached. Among them are the
records of all machines, as nobody asks to wait for itself.
-/

namespace Injection

open Relation (TransGen ReflTransGen)

namespace Waiting

variable {w : Waiting} {waiter target current steps : Nat} {met : Bool}

/-- The record, followed from `current`, leads to the waiter or comes to its end after a number of steps. There is no
bound on the number. -/
inductive Walk (w : Waiting) (waiter : Nat) : (current steps : Nat) → (met : Bool) → Prop
  | ends {current : Nat} : w.target? current = none → Walk w waiter current 0 false
  | meets {current : Nat} : w.target? current = some waiter → Walk w waiter current 1 true
  | goes {current next steps : Nat} {met : Bool} : w.target? current = some next → next ≠ waiter →
      Walk w waiter next steps met → Walk w waiter current (steps + 1) met

/-- The records that come about: waits are asked for, by anybody for anybody else, and forgotten. -/
inductive Evolved : Waiting → Prop
  | empty : Evolved empty
  | asked {w : Waiting} {waiter target : Nat} : Evolved w → waiter ≠ target → Evolved (w.start waiter target).2
  | forgotten {w : Waiting} (waiter : Nat) : Evolved w → Evolved (w.erase waiter)

/-! ### Walks -/

/-- There is only one way to follow a record. -/
theorem Walk.unique {steps' : Nat} {met' : Bool} (h : w.Walk waiter current steps met)
    (h' : w.Walk waiter current steps' met') : steps = steps' ∧ met = met' := by
  induction h generalizing steps' with
  | ends hend => cases h' <;> simp_all
  | meets hmeets => cases h' <;> simp_all
  | goes hnext hother _ ih =>
    cases h' with
    | ends hend => simp [hnext] at hend
    | meets hmeets => exact absurd (Option.some.inj (hnext.symm.trans hmeets)) hother
    | goes hnext' _ hrest =>
      obtain rfl := Option.some.inj (hnext.symm.trans hnext')
      obtain ⟨rfl, rfl⟩ := ih hrest
      exact ⟨rfl, rfl⟩

/-- With more steps to spare than a walk takes, the walk is followed to its end. -/
theorem Walk.reaches?_eq (h : w.Walk waiter current steps met) {spare : Nat} (hspare : steps < spare) :
    w.reaches? waiter spare current = some met := by
  induction h generalizing spare with
  | ends hend =>
    obtain ⟨spare, rfl⟩ := Nat.exists_eq_add_of_lt hspare
    simp [reaches?, hend]
  | meets hmeets =>
    obtain ⟨spare, rfl⟩ := Nat.exists_eq_add_of_lt hspare
    simp [reaches?, hmeets]
  | goes hnext hother _ ih =>
    cases spare with
    | zero => omega
    | succ spare => simp [reaches?, hnext, hother, ih (Nat.lt_of_succ_lt_succ hspare)]

/-- A walk meets the waiter exactly if the waiter is reached. -/
theorem Walk.met_iff (h : w.Walk waiter current steps met) : met = true ↔ TransGen w.Leads current waiter := by
  have hreaches := h.reaches?_eq (Nat.lt_succ_self steps)
  cases met with
  | true => simpa using transGen_of_reaches? hreaches
  | false => simpa using not_transGen_of_reaches? hreaches

/-- A walk that never comes to a resolution is the same if its entry has not been erased. -/
theorem Walk.of_erase {a : Nat} (h : (w.erase a).Walk waiter current steps met)
    (hnever : ¬ ReflTransGen w.Leads current a) : w.Walk waiter current steps met := by
  have htarget {b : Nat} (hb : ¬ ReflTransGen w.Leads b a) : (w.erase a).target? b = w.target? b := by
    rw [target?_erase, if_neg]
    rintro rfl
    exact hb .refl
  induction h with
  | ends hend => exact .ends (htarget hnever ▸ hend)
  | meets hmeets => exact .meets (htarget hnever ▸ hmeets)
  | goes hnext hother _ ih =>
    rw [htarget hnever] at hnext
    exact .goes hnext hother (ih fun hrest => hnever (.head hnext hrest))

/-- Without cycles every walk ends: it takes at most one step for each entry, as it never comes back to one. -/
theorem Acyclic.exists_walk (h : w.Acyclic) (waiter current : Nat) :
    ∃ steps met, w.Walk waiter current steps met ∧ steps ≤ w.edges.length := by
  induction hsize : w.edges.length using Nat.strongRecOn generalizing w current with
  | _ size ih =>
    cases hnext : w.target? current with
    | none => exact ⟨0, false, .ends hnext, Nat.zero_le _⟩
    | some next =>
      have hlength := hsize ▸ length_erase_lt hnext
      by_cases hmeets : next = waiter
      · exact ⟨1, true, .meets (hmeets ▸ hnext), Nat.one_le_of_lt hlength⟩
      · obtain ⟨steps, met, hwalk, hsteps⟩ := ih _ hlength (h.erase current) next rfl
        have hrest := hwalk.of_erase (h.not_reached_again hnext)
        exact ⟨steps + 1, met, .goes hnext hmeets hrest, Nat.lt_of_le_of_lt hsteps hlength⟩

/-- A wait is decided by the walk from its target, and by nothing else. -/
theorem Acyclic.start_of_walk (h : w.Acyclic) (hwalk : w.Walk waiter target steps met) :
    w.start waiter target = if met then (false, w) else (true, w.insert waiter target) := by
  obtain ⟨steps', met', hwalk', hsteps⟩ := h.exists_walk waiter target
  obtain ⟨rfl, rfl⟩ := hwalk.unique hwalk'
  unfold start
  rw [hwalk.reaches?_eq (Nat.lt_succ_of_le hsteps)]
  cases met <;> rfl

/-! ### Records that come about -/

/-- Asking for a wait closes no cycle. -/
theorem Acyclic.start (h : w.Acyclic) (hother : waiter ≠ target) : (w.start waiter target).2.Acyclic := by
  obtain ⟨steps, met, hwalk, -⟩ := h.exists_walk waiter target
  rw [h.start_of_walk hwalk]
  cases met with
  | true => exact h
  | false =>
    refine h.insert fun hback => ?_
    rcases Relation.reflTransGen_iff_eq_or_transGen.mp hback with heq | hback
    · exact hother heq
    · exact Bool.false_ne_true (hwalk.met_iff.mpr hback)

/-- No sequence of asking and forgetting leads to a cycle. -/
theorem Evolved.acyclic (h : w.Evolved) : w.Acyclic := by
  induction h with
  | empty => exact acyclic_empty
  | asked _ hother ih => exact ih.start hother
  | forgotten waiter _ ih => exact ih.erase waiter

/-- However waits have been entered and forgotten, the record has no cycles, and following it from anybody in search
of anybody comes to an end, after at most one step for each entry. Asking for a wait gives the answer of that walk. It
is refused, and the record left as it is, exactly if the one to be waited for leads to the waiter; otherwise it becomes
the one entry of the waiter, in the place of an earlier one, and all other entries stay. -/
theorem Evolved.walk_exact (h : w.Evolved) :
    w.Acyclic ∧
      (∀ waiter target, ∃ steps met, w.Walk waiter target steps met ∧ steps ≤ w.edges.length) ∧
      (∀ waiter target steps met, w.Walk waiter target steps met →
        w.start waiter target = if met then (false, w) else (true, w.insert waiter target)) ∧
      ∀ waiter target, waiter ≠ target →
        (w.start waiter target = (false, w) ↔ ReflTransGen w.Leads target waiter) ∧
          (¬ ReflTransGen w.Leads target waiter → ∃ w', w.start waiter target = (true, w') ∧
            ∀ other, w'.target? other = if other = waiter then some target else w.target? other) := by
  have hacyclic := h.acyclic
  refine ⟨hacyclic, hacyclic.exists_walk, fun _ _ _ _ => hacyclic.start_of_walk, fun waiter target hother => ?_⟩
  obtain ⟨steps, met, hwalk, -⟩ := hacyclic.exists_walk waiter target
  have hmet : met = true ↔ ReflTransGen w.Leads target waiter := by
    rw [hwalk.met_iff, Relation.reflTransGen_iff_eq_or_transGen, or_iff_right hother]
  rw [hacyclic.start_of_walk hwalk, ← hmet]
  cases met with
  | true => exact ⟨by simp, fun hnot => absurd rfl hnot⟩
  | false => exact ⟨by simp, fun _ => ⟨_, rfl, target?_insert w waiter target⟩⟩

/-- The first waits for the second and the second for the third. The third must not wait for the first; the first may
wait for somebody else instead. -/
theorem Evolved.walk_exact_chain :
    ∃ w : Waiting, w.Evolved ∧ w.target? 0 = some 1 ∧ w.target? 1 = some 2 ∧ w.start 2 0 = (false, w) ∧
      ∃ w', w.start 0 3 = (true, w') ∧ w'.target? 0 = some 3 ∧ w'.target? 1 = some 2 := by
  have hevolved : ((Waiting.empty.start 0 1).2.start 1 2).2.Evolved := .asked (.asked .empty (by decide)) (by decide)
  have hexact := hevolved.walk_exact.2.2.2
  have hback : ReflTransGen ((Waiting.empty.start 0 1).2.start 1 2).2.Leads 0 2 := .head (b := 1) rfl (.single rfl)
  have haway : ¬ ReflTransGen ((Waiting.empty.start 0 1).2.start 1 2).2.Leads 3 0 := by
    intro hwalk
    obtain heq | ⟨next, hnext, -⟩ := hwalk.cases_head
    · cases heq
    · cases hnext
  obtain ⟨w', hstart, htarget⟩ := (hexact 0 3 (by decide)).2 haway
  exact ⟨_, hevolved, rfl, rfl, (hexact 2 0 (by decide)).1.mpr hback, w', hstart, htarget 0, htarget 1⟩

end Waiting

/-! ### The records of machines -/

namespace Machine

variable {V E : Type} [Hashed V] {m m' : Machine V E (Reply V)} {i : Nat} {thread : Thread V E (Reply V)}

/-- The record has come about by waits that were asked for and forgotten, and whoever is about to ask for one would
wait for somebody else. -/
structure Recording (m : Machine V E (Reply V)) : Prop where
  orderly : m.Orderly
  evolved : m.world.waiting.Evolved
  deciding : ∀ {i creator : Nat} {slot other resolution next} {thread : Thread V E (Reply V)}, m.threads[i]? = some thread →
    thread.phase = .deciding slot creator → thread.task = .acquire other resolution next → resolution.number ≠ creator

/-- A move of a thread asks for at most one wait, or forgets one. -/
theorem Recording.effect (h : m.Recording) (hthread : m.threads[i]? = some thread) (heffect : m.Effect i thread m') :
    m'.Recording := by
  obtain ⟨thread', hthread', -, -, hturn⟩ := h.orderly.mover hthread heffect
  refine ⟨h.orderly.effect hthread heffect, ?_,
    fun {j creator slot other resolution next asking} hasking hphase htask => ?_⟩
  · cases hturn with
    | runs _ _ hwaiting => exact hwaiting ▸ h.evolved
    | decides _ _ _ _ _ hw => exact hw ▸ h.evolved
    | @enlists slot resolution next other creator waiting htask hbefore hstart _ _ hwaiting =>
      have hasked := h.evolved.asked (h.deciding hthread hbefore htask)
      rw [hstart] at hasked
      exact hwaiting ▸ hasked
    | sleeps _ _ _ hw => exact hw ▸ h.evolved
    | rises _ _ _ hw => exact hw ▸ h.evolved.forgotten _
  · by_cases hij : i = j
    · subst hij
      obtain rfl := Option.some.inj (hthread'.symm.trans hasking)
      cases hturn with
      | runs _ hafter _ => simp [hafter] at hphase
      | decides htask' _ _ hother hafter _ =>
        subst hafter
        obtain ⟨-, rfl⟩ := Phase.deciding.inj hphase
        obtain ⟨-, rfl, -⟩ := Task.acquire.inj (htask'.symm.trans htask)
        exact hother.symm
      | enlists _ _ _ hafter _ _ => simp [hafter] at hphase
      | sleeps _ _ hafter _ => simp [hafter] at hphase
      | rises _ _ hafter _ => simp [hafter] at hphase
    · obtain ⟨before, hbefore, rfl | ⟨announced, -, rfl⟩⟩ := heffect.other_before hij hasking
      · exact h.deciding hbefore hphase htask
      · rw [roused_task] at htask
        rcases roused_phase hphase with hsame | ⟨-, hnotified⟩
        · exact h.deciding hbefore hsame htask
        · cases hnotified

/-- Whatever threads request, and in whatever order they move, the record is one of those in which walks end. -/
theorem evolved_of_reaches {w : World V E} (hidle : w.waiting = .empty) {opened : List String}
    {requests : List (ComponentId × Query V)} (hreach : (racing w opened requests).Reaches m) :
    m.world.waiting.Evolved := by
  have hstart : (racing w opened requests).Recording := by
    refine ⟨orderly_racing w opened requests, hidle ▸ .empty, fun hthread hphase _ => ?_⟩
    simp only [racing, start, List.map_map, List.getElem?_map, Option.map_eq_some_iff] at hthread
    obtain ⟨request, -, rfl⟩ := hthread
    cases hphase
  exact (hreach.invariant (P := Recording) (fun h hthread heffect => h.effect hthread heffect) hstart).evolved

end Machine

end Injection

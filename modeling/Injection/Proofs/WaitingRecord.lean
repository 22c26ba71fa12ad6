import Injection.Waiting
import Mathlib.Logic.Relation

/-!
# The record of waits has no cycles

A record leads from a waiter to the one it waits for. Entering a wait follows the record from the
target, and in a record without cycles the walk always comes to an end: it answers exactly whether
the target already waits for the waiter, directly or through others. A wait is entered only if it
does not, so no sequence of entered and forgotten waits ever closes a cycle.
-/

namespace Injection.Waiting

open Relation (TransGen ReflTransGen)

variable {w : Waiting} {a b waiter target : Nat}

/-- The record says that one resolution waits for another. -/
def Leads (w : Waiting) (a b : Nat) : Prop := w.target? a = some b

/-- Nobody waits for itself, directly or through others. -/
def Acyclic (w : Waiting) : Prop := ∀ a, ¬ TransGen w.Leads a a

/-- Nobody waits in the empty record. -/
@[simp]
theorem target?_empty (a : Nat) : empty.target? a = none := rfl

/-- Only the erased waiter is forgotten. -/
theorem target?_erase (w : Waiting) (a b : Nat) :
    (w.erase a).target? b = if b = a then none else w.target? b := by
  simp only [target?, erase, List.find?_filter]
  split
  · next h =>
    subst h
    simp
  · next h =>
    congr 2
    funext edge
    by_cases hedge : edge.1 = b <;> simp [hedge, h]

/-- The new wait takes the place of an earlier one of the same waiter, and no other changes. -/
theorem target?_insert (w : Waiting) (a c b : Nat) :
    (w.insert a c).target? b = if b = a then some c else w.target? b := by
  by_cases h : a = b
  · simp [insert, target?, h]
  · have herase := target?_erase w a b
    rw [if_neg (Ne.symm h)] at herase ⊢
    rw [← herase]
    simp [insert, target?, h]

/-- Erasing a waiter that has an entry makes the record shorter. -/
theorem length_erase_lt (h : w.target? a = some b) :
    (w.erase a).edges.length < w.edges.length := by
  simp only [target?, Option.map_eq_some_iff] at h
  obtain ⟨edge, hfind, -⟩ := h
  exact List.length_filter_lt_length_iff_exists.mpr
    ⟨edge, List.mem_of_find?_eq_some hfind, by simpa using List.find?_some hfind⟩

/-- A resolution waits for at most one other. -/
theorem Leads.unique {c : Nat} (h : w.Leads a b) (h' : w.Leads a c) : b = c :=
  Option.some.inj (h.symm.trans h')

/-- Whoever waits after somebody was forgotten was waiting before. -/
theorem leads_of_leads_erase {c : Nat} (h : (w.erase c).Leads a b) : w.Leads a b := by
  unfold Leads at h ⊢
  rw [target?_erase] at h
  split at h
  · contradiction
  · exact h

/-- There is no cycle in the empty record. -/
theorem acyclic_empty : empty.Acyclic := by
  intro a h
  obtain ⟨c, hc, -⟩ := TransGen.head'_iff.mp h
  simp [Leads] at hc

/-- Forgetting a waiter closes no cycle. -/
theorem Acyclic.erase (h : w.Acyclic) (a : Nat) : (w.erase a).Acyclic :=
  fun b hb => h b (TransGen.mono (fun _ _ => leads_of_leads_erase) b b hb)

/-- In a record without cycles nobody is reached again from the one it waits for. -/
theorem Acyclic.not_reached_again (h : w.Acyclic) (hab : w.Leads a b) :
    ¬ ReflTransGen w.Leads b a :=
  fun hba => h a (TransGen.head' hab hba)

/-- A walk in a record with a new wait either avoids the new wait or runs through it once. -/
theorem transGen_insert (hnew : ¬ ReflTransGen w.Leads target waiter)
    (h : TransGen (w.insert waiter target).Leads a b) :
    TransGen w.Leads a b ∨ ReflTransGen w.Leads a waiter ∧ ReflTransGen w.Leads target b := by
  have hedge (c d : Nat) (hcd : (w.insert waiter target).Leads c d) :
      c = waiter ∧ d = target ∨ w.Leads c d := by
    unfold Leads at hcd ⊢
    rw [target?_insert] at hcd
    split at hcd
    · next hc => exact Or.inl ⟨hc, (Option.some.inj hcd).symm⟩
    · exact Or.inr hcd
  induction h with
  | single hab =>
    rcases hedge _ _ hab with ⟨rfl, rfl⟩ | hab
    · exact Or.inr ⟨.refl, .refl⟩
    · exact Or.inl (.single hab)
  | tail _ hcd ih =>
    rcases hedge _ _ hcd with ⟨rfl, rfl⟩ | hcd
    · rcases ih with hwalk | ⟨-, hback⟩
      · exact Or.inr ⟨hwalk.to_reflTransGen, .refl⟩
      · exact absurd hback hnew
    · rcases ih with hwalk | ⟨hfirst, hlast⟩
      · exact Or.inl (hwalk.tail hcd)
      · exact Or.inr ⟨hfirst, hlast.tail hcd⟩

/-- A wait for somebody who does not wait for the waiter closes no cycle. -/
theorem Acyclic.insert (h : w.Acyclic) (hnew : ¬ ReflTransGen w.Leads target waiter) :
    (w.insert waiter target).Acyclic := by
  intro a ha
  rcases transGen_insert hnew ha with hwalk | ⟨hfirst, hlast⟩
  · exact h a hwalk
  · exact hnew (hlast.trans hfirst)

/-- A walk that meets the waiter has followed the record to it. -/
theorem transGen_of_reaches? {steps : Nat} (h : w.reaches? waiter steps a = some true) :
    TransGen w.Leads a waiter := by
  induction steps generalizing a with
  | zero => simp [reaches?] at h
  | succ steps ih =>
    unfold reaches? at h
    split at h
    · simp at h
    · next next hnext =>
      split at h
      · next heq => exact .single (heq ▸ hnext)
      · exact .head hnext (ih h)

/-- A walk that finds the end of the record has not missed the waiter. -/
theorem not_transGen_of_reaches? {steps : Nat} (h : w.reaches? waiter steps a = some false) :
    ¬ TransGen w.Leads a waiter := by
  induction steps generalizing a with
  | zero => simp [reaches?] at h
  | succ steps ih =>
    intro hwalk
    obtain ⟨c, hac, hrest⟩ := TransGen.head'_iff.mp hwalk
    unfold reaches? at h
    rw [hac] at h
    dsimp only at h
    split at h
    · simp at h
    · next hne =>
      rcases Relation.reflTransGen_iff_eq_or_transGen.mp hrest with heq | hrest
      · exact hne heq.symm
      · exact ih h hrest

/-- A walk that never comes to a waiter does not notice that its entry is erased. -/
theorem reaches?_erase {c : Nat} (steps : Nat) (h : ¬ ReflTransGen w.Leads a c) :
    (w.erase c).reaches? waiter steps a = w.reaches? waiter steps a := by
  induction steps generalizing a with
  | zero => rfl
  | succ steps ih =>
    have hac : a ≠ c := fun heq => h (heq ▸ .refl)
    unfold reaches?
    rw [target?_erase, if_neg hac]
    cases hnext : w.target? a with
    | none => rfl
    | some next =>
      dsimp only
      rw [ih fun hrest => h (.head hnext hrest)]

/-- Without cycles, a walk with more steps than there are entries comes to an end: every step uses
up the entry of the one it leaves. -/
theorem Acyclic.reaches?_isSome (h : w.Acyclic) {steps : Nat} (hsteps : w.edges.length < steps)
    (a : Nat) : w.reaches? waiter steps a ≠ none := by
  induction steps generalizing w a with
  | zero => omega
  | succ steps ih =>
    unfold reaches?
    cases hnext : w.target? a with
    | none => simp
    | some next =>
      dsimp only
      split
      · simp
      · rw [← reaches?_erase steps (h.not_reached_again hnext)]
        have hlength := length_erase_lt hnext
        exact ih (h.erase a) (by omega) next

/-- Without cycles, a wait is refused exactly when the target already waits for the waiter. -/
theorem Acyclic.start_eq (h : w.Acyclic) (waiter target : Nat) [Decidable (TransGen w.Leads target waiter)] :
    w.start waiter target =
      if TransGen w.Leads target waiter then (false, w) else (true, w.insert waiter target) := by
  unfold start
  cases hwalk : w.reaches? waiter (w.edges.length + 1) target with
  | none => exact absurd hwalk (h.reaches?_isSome (by omega) target)
  | some found =>
    cases found with
    | true => rw [if_pos (transGen_of_reaches? hwalk)]
    | false => rw [if_neg (not_transGen_of_reaches? hwalk)]

/-- Without cycles, a wait that is entered is recorded, and the target does not wait for the waiter. -/
theorem Acyclic.start_eq_true (h : w.Acyclic) {w' : Waiting}
    (hstart : w.start waiter target = (true, w')) :
    w' = w.insert waiter target ∧ ¬ TransGen w.Leads target waiter := by
  classical
  rw [h.start_eq] at hstart
  split at hstart
  · simp at hstart
  · next hwalk => exact ⟨(congrArg Prod.snd hstart).symm, hwalk⟩

/-- Without cycles, a wait that is refused is one for somebody who already waits for the waiter. -/
theorem Acyclic.start_eq_false (h : w.Acyclic) :
    (w.start waiter target).1 = false ↔ TransGen w.Leads target waiter := by
  classical
  rw [h.start_eq]
  split <;> simpa

/-- Without cycles, following the record from anywhere leads to somebody who does not wait. -/
theorem Acyclic.exists_end (h : w.Acyclic) (a : Nat) :
    ∃ b, ReflTransGen w.Leads a b ∧ w.target? b = none := by
  induction hsize : w.edges.length using Nat.strongRecOn generalizing w a with
  | _ size ih =>
    cases hnext : w.target? a with
    | none => exact ⟨a, .refl, hnext⟩
    | some next =>
      have hlength := length_erase_lt hnext
      obtain ⟨b, hwalk, hend⟩ := ih _ (hsize ▸ hlength) (h.erase a) next rfl
      have hwalk : ReflTransGen w.Leads next b :=
        ReflTransGen.mono (fun _ _ => leads_of_leads_erase) next b hwalk
      have hba : b ≠ a := fun heq => h.not_reached_again hnext (heq ▸ hwalk)
      rw [target?_erase, if_neg hba] at hend
      exact ⟨b, .head hnext hwalk, hend⟩

end Injection.Waiting

import Injection.Proofs.Singleton

/-!
# Definitions that come to an object

While a definition is run whose value is kept, the cell is taken: whatever is run meanwhile, it is nothing that is kept
there. So if the definition comes to an object, no other definition is run for the cell before that is noted down. Calls
that come to an end tell nothing else of the definitions that they run, however deep they are nested.
-/

namespace Injection

variable {V E α : Type}

/-! ### Calls within the making of a value -/

/-- The conduct by which calls are made only while the value of a cell is being made. -/
def Conduct.enclosed (slot : Slot) : Conduct V E :=
  ⟨fun _ => True, fun _ _ => True, fun _ _ _ => True, fun making _ => slot ∈ making⟩

section Enclosed

variable {slot : Slot} {making : List Slot}

/-- What a definition does while the value is being made is done while it is being made. -/
theorem Program.fits_enclosed (context : Context V) (program : Program V E) (h : slot ∈ making) :
    program.Fits (.enclosed slot) context making := by
  induction program generalizing making with
  | done outcome => trivial
  | request key parameters next ih => exact ⟨h, fun reply => ih reply h⟩
  | start component key parameters next ih => exact ⟨fun _ _ => h, fun reply => ih reply h⟩
  | forward owner key next ih => exact ⟨h, fun reply => ih reply h⟩
  | share entry body next ihbody ih => exact ⟨trivial, ihbody (List.mem_cons_of_mem _ h), fun reply => ih reply h⟩
  | make type value next ih => exact fun object => ih object h
  | touch change next ih => exact fun before => ih before h
  | report event next ih => exact ih h
  | meet gate next ih => exact ih h

/-- Calls that are made while the value of a cell is being made lead to nothing but such calls. -/
theorem Conduct.lawful_enclosed [Hashed V] (slot : Slot) : (Conduct.enclosed slot : Conduct V E).Lawful where
  stored _ _ _ := trivial
  memoized _ _ := trivial
  supplied _ _ _ := Synthesis.supplies_of_stores (fun _ _ => trivial) _ _ _
  admitted {owner binding making request context} _ hmem _ _ := by
    have hmem : slot ∈ making := hmem
    unfold Stored.Admitted
    split
    · exact Program.fits_enclosed _ _ hmem
    · exact ⟨trivial, Program.fits_enclosed _ _ (List.mem_cons_of_mem _ hmem)⟩

/-- It lets every resolution ask for cells, and runs halt for whatever reason. -/
theorem Conduct.engages_enclosed (slot : Slot) :
    (Conduct.enclosed slot : Conduct V E).Engages (fun _ => True) fun _ => True :=
  ⟨fun _ => trivial, fun _ _ _ => trivial, trivial⟩

end Enclosed

section Visits

variable [Hashed V] {w v : World V E} {request : Call V} {context : Context V} {stored : Stored V E}
  {visit : Visit V E} {slot : Slot} {making : List Slot} {depth : Nat}

/-- A definition is run for a cell only if the cell is empty, and then the cell is taken. -/
theorem Call.cells_of_visit? (hvisit : request.visit? w = some visit)
    (hslot : visit.stored.slot? visit.context = some slot) :
    w.cells slot = .empty ∧ ∃ number, visit.world.cells = (w.setCell slot (.creating number)).cells := by
  obtain ⟨found, -, hobtains, hfound, -, -⟩ := body_of_visit? hvisit
  obtain ⟨hnone, -⟩ | ⟨own, u, hown, hu, hempty, hworld, -⟩ := Stored.obtain_of_visit? hobtains
  · cases hnone.symm.trans hslot
  · obtain rfl := Option.some.inj (hown.symm.trans hslot)
    rw [← hfound, ← hu]
    refine ⟨hempty, visit.context.resolution.number, ?_⟩
    rw [hworld, World.opened, World.emit_cells, World.setCell, World.setCell, hu, hfound]

/-- While a definition is run whose value is kept, no other one is run whose value is kept in the same cell. -/
theorem Visit.slot?_ne_within {result : Except ResolveError (Object V)} {made u : World V E} {inner : Call V}
    {found : Visit V E} (hmaking : w.Making (fun _ => True) making) (hvisit : request.visit? w = some visit)
    (hslot : visit.stored.slot? visit.context = some slot)
    (hrun : (visit.stored.create visit.context).run (Call.answer depth) visit.world = .ok (result, made))
    (hcalled : .called inner u ∈
      (visit.stored.create visit.context).journal (Call.answer depth) (Call.journal depth) visit.world)
    (hfound : inner.visit? u = some found) : found.stored.slot? found.context ≠ some slot := by
  intro hsame
  obtain ⟨hempty, number, htaken⟩ := Call.cells_of_visit? hvisit hslot
  have hwithin : visit.world.Making (fun _ => True) (slot :: making) :=
    (hmaking.begin hempty trivial).of_cells htaken
  have hkeeps : (visit.stored.create visit.context).Keeps (.enclosed slot) (slot :: making) :=
    (Program.toTask_keeps (Program.fits_enclosed _ _ List.mem_cons_self)).bind fun _ _ => .done trivial
  have hlawful := Conduct.lawful_enclosed (V := V) (E := E) slot
  have hengages := Conduct.engages_enclosed (V := V) (E := E) slot
  obtain ⟨outer, t, hmakes, hinner, -⟩ := Task.called_mem hcalled
  obtain ⟨making', reply, t', hcalls, -, hmaking', hanswer, -⟩ :=
    Task.Follows.lasts hengages (Call.unwinding hlawful hengages depth) hkeeps trivial hwithin hrun hmakes
  obtain ⟨depth', making'', _, _, hmem, -, hmaking'', -, -⟩ :=
    Call.lasts_of_called hlawful hengages hcalls trivial hmaking' hanswer hinner
  obtain ⟨creator, hcreating⟩ := hmaking''.made hmem
  cases (Call.cells_of_visit? hfound hsame).1.symm.trans hcreating

end Visits

/-! ### Calls that come to an end -/

section Ends

variable {answer : Call V → World V E → Run V E (Reply V)} {w w' : World V E} {context : Context V}

/-- If a value that has to be made is obtained or not, making it has come to an end. -/
theorem Task.keep_ended {slot : Slot} {create : Task V E (Except ResolveError (Object V))}
    {result : Except ResolveError (Object V)} (hempty : w.cells slot = .empty)
    (h : (Task.keep slot context create).run answer w = .ok (result, w')) :
    ∃ result made, create.run answer (w.opened slot context) = .ok (result, made) := by
  simp only [Task.keep, Task.run, hempty, Task.run_emit] at h
  obtain ⟨result, made, hcreate, -⟩ := Task.run_bind_eq_ok h
  exact ⟨result, made, hcreate⟩

/-- If the value of a visit is obtained, its definition has come to a result. -/
theorem Stored.obtain_ended [Hashed V] {stored : Stored V E} {visit : Visit V E}
    {result : Except ResolveError (Object V)} (hvisit : stored.visit? context w = some visit)
    (h : (stored.obtain context).run answer w = .ok (result, w')) :
    ∃ result made, (stored.create context).run answer visit.world = .ok (result, made) := by
  obtain ⟨-, hworld, hobtain⟩ | ⟨slot, u, -, -, hempty, hworld, hobtain⟩ := obtain_of_visit? hvisit
  · rw [hobtain] at h
    exact ⟨result, w', hworld ▸ h⟩
  · rw [hobtain] at h
    exact hworld ▸ Task.keep_ended hempty h

/-- If a call comes to an end that runs a definition, so does the definition. -/
theorem Call.body_ended [Hashed V] {request : Call V} {visit : Visit V E} {reply : Reply V}
    (hvisit : request.visit? w = some visit) (h : request.body.run answer w = .ok (reply, w')) :
    ∃ result made, (visit.stored.create visit.context).run answer visit.world = .ok (result, made) := by
  obtain ⟨u, finish, hobtains, -, hbody, -⟩ := body_of_visit? hvisit
  rw [hbody] at h
  obtain ⟨result, between, hobtain, -⟩ := Task.run_bind_eq_ok h
  exact Stored.obtain_ended hobtains hobtain

end Ends

/-! ### What is noted down of a success -/

section Journals

variable [Hashed V]

/-- Whenever a call is taken up that runs a definition whose value is kept, and the definition comes to an object, the
object is noted down as made, and no other definition is run for the cell until then. -/
def Moment.Conclusive : List (Moment V E) → Prop
  | [] => True
  | .called request v :: rest =>
    (∀ visit slot depth object made, request.visit? v = some visit → visit.stored.slot? visit.context = some slot →
      (visit.stored.create visit.context).run (Call.answer depth) visit.world = .ok (.ok object, made) →
        ∃ during after, rest = during ++ .ended slot (.ready object) :: after ∧
          ∀ inner u found, .called inner u ∈ during → inner.visit? u = some found →
            found.stored.slot? found.context ≠ some slot) ∧ Conclusive rest
  | .begun _ :: rest | .ended _ _ :: rest => Conclusive rest

namespace Moment.Conclusive

variable {journal journal' : List (Moment V E)}

/-- Conclusive journals make up a conclusive journal. -/
theorem append (h : Conclusive journal) (h' : Conclusive journal') : Conclusive (journal ++ journal') := by
  induction journal with
  | nil => exact h'
  | cons moment rest ih =>
    cases moment with
    | begun slot => exact ih h
    | ended slot cell => exact ih h
    | called request v =>
      refine ⟨fun visit slot depth object made hvisit hslot hrun => ?_, ih h.2⟩
      obtain ⟨during, after, hrest, hduring⟩ := h.1 visit slot depth object made hvisit hslot hrun
      exact ⟨during, after ++ journal', by simp [hrest], hduring⟩

/-- What follows on something tells as much. -/
theorem right (h : Conclusive (journal ++ journal')) : Conclusive journal' := by
  induction journal with
  | nil => exact h
  | cons moment rest ih =>
    cases moment with
    | begun slot => exact ih h
    | ended slot cell => exact ih h
    | called request v => exact ih h.2

end Moment.Conclusive

variable {depth : Nat} {request : Call V} {w w' : World V E} {reply : Reply V}

/-- A task comes to one end, whatever the bounds that it stays within. -/
theorem World.run_unique {depth' : Nat} {task : Task V E α} {after after' : α × World V E}
    (h : w.run depth task = .ok after) (h' : w.run depth' task = .ok after') : after = after' := by
  have hdeeper {bound : Nat} {last : α × World V E} (hbound : bound ≤ max depth depth') (hrun : w.run bound task = .ok last) :
      w.run (max depth depth') task = .ok last := Task.run_mono (Call.answer_mono hbound) hrun
  exact Except.ok.inj ((hdeeper (Nat.le_max_left _ _) h).symm.trans (hdeeper (Nat.le_max_right _ _) h'))

/-- A task tells as much if the calls do that it makes itself. -/
theorem Task.journal_conclusive {answer : Call V → World V E → Run V E (Reply V)}
    {record : Call V → World V E → List (Moment V E)} {task : Task V E α}
    (h : ∀ request v, task.Makes answer w request v → Moment.Conclusive (record request v)) :
    Moment.Conclusive (task.journal answer record w) := by
  unfold Makes at h
  induction task generalizing w with
  | done result => trivial
  | act change next ih => exact ih w h
  | acquire slot resolution next ih =>
    unfold journal at h ⊢
    cases hcell : w.cells slot with
    | ready object =>
      rw [hcell] at h
      exact ih _ h
    | empty =>
      simp only [hcell, List.mem_cons, reduceCtorEq, false_or] at h
      exact ih _ h
    | creating creator =>
      simp only [hcell] at h
      dsimp only
      split
      · next hsame =>
        rw [if_pos hsame] at h
        exact ih _ h
      · trivial
  | settle slot cell next ih =>
    unfold journal at h
    simp only [List.mem_cons, reduceCtorEq, false_or] at h
    exact ih h
  | notify slot next ih => exact ih h
  | call made next ih =>
    unfold journal at h ⊢
    refine (h made w (List.mem_append_left _ List.mem_cons_self)).append ?_
    cases hreply : answer made w with
    | error halt => trivial
    | ok pair => exact ih pair.1 fun request v hmakes => h request v (List.mem_append_right _ (by rwa [hreply]))
  | meet gate next ih => exact ih h

/-- A call that comes to an end tells of every definition that comes to an object, however deep calls are nested. -/
theorem Call.journal_conclusive {making : List Slot} (hmaking : w.Making (fun _ => True) making)
    (hanswer : Call.answer depth request w = .ok (reply, w')) : Moment.Conclusive (Call.journal depth request w) := by
  induction depth generalizing request w w' making reply with
  | zero => cases hanswer
  | succ depth ih =>
    refine ⟨fun visit slot depth' object made hvisit hslot hcreated => ?_, Task.journal_conclusive fun inner v hmakes => ?_⟩
    · obtain ⟨result, made', hrun⟩ := Call.body_ended hvisit hanswer
      obtain ⟨rfl, -⟩ := Prod.mk.inj (World.run_unique hrun hcreated)
      let creation := (visit.stored.create visit.context).journal (Call.answer depth) (Call.journal depth) visit.world
      refine ⟨.begun slot :: creation, [], ?_, fun inner u found hcalled hfound => ?_⟩
      · rw [Call.body_journal, hvisit, Option.elim_some, Visit.journal]
        simp only [hslot, hrun, creation]
      · have hwithin := (List.mem_cons.mp hcalled).resolve_left (by simp)
        exact Visit.slot?_ne_within hmaking hvisit hslot hrun hwithin hfound
    · obtain ⟨_, _, _, -, -, hmaking', hanswered, -⟩ := (Call.body_keeps Conduct.lawful_lax trivial).lasts
        Conduct.engages_lax (Call.unwinding Conduct.lawful_lax Conduct.engages_lax depth) trivial hmaking hanswer hmakes
      exact ih hmaking' hanswered

/-- So does a top-level request. -/
theorem Query.journal_conclusive {q : Query V} {c : ComponentId}
    (hidle : ∀ slot creator, w.cells slot ≠ .creating creator) (hrun : w.run depth (q.task c) = .ok (reply, w')) :
    Moment.Conclusive (w.journal depth (q.task c)) := by
  obtain ⟨_, hanswer, -⟩ := Query.answer_of_run hrun
  rw [q.journal_task]
  exact Call.journal_conclusive (World.Making.of_idle hidle) hanswer

end Journals

end Injection

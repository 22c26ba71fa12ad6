import Injection.Proofs.Journal

/-!
# How long values last

A cell lives through attempts to make its value: an attempt begins in the empty cell, and ends with the
value in the cell or with the cell empty again. Attempts end in reverse order, also when definitions
catch the errors of what they request, so while a resolution is under way the cells that are being made
are the ones on a stack. None is left when the top-level request returns. So a value that is kept once
is kept from then on.
-/

namespace Injection

variable {V E α : Type}

/-! ### The life of a cell -/

/-- The moment is one of the cell's. -/
def Moment.Concerns (slot : Slot) : Moment V E → Prop
  | .called _ _ => False
  | .begun other | .ended other _ => other = slot

/-- How the state of a cell changes through what happens: an attempt begins if there is no value, and
what is left of it when it ends is not an attempt again. -/
inductive Cell.Turns (slot : Slot) : Cell V → List (Moment V E) → Cell V → Prop
  | nil (cell : Cell V) : Turns slot cell [] cell
  | other {moment : Moment V E} {journal : List (Moment V E)} {cell cell' : Cell V} :
      ¬ moment.Concerns slot → Turns slot cell journal cell' → Turns slot cell (moment :: journal) cell'
  | begun {number : Nat} {journal : List (Moment V E)} {cell : Cell V} :
      Turns slot (.creating number) journal cell → Turns slot .empty (.begun slot :: journal) cell
  | ended {number : Nat} {journal : List (Moment V E)} {left cell : Cell V} :
      (∀ resolution, left ≠ .creating resolution) → Turns slot left journal cell →
        Turns slot (.creating number) (.ended slot left :: journal) cell

namespace Cell.Turns

variable {slot : Slot} {cell cell' cell'' : Cell V} {journal journal' : List (Moment V E)} {object : Object V}

/-- Turns one after the other are turns. -/
theorem append (h : Turns slot cell journal cell') (h' : Turns slot cell' journal' cell'') :
    Turns slot cell (journal ++ journal') cell'' := by
  induction h with
  | nil => exact h'
  | other hmoment _ ih => exact .other hmoment (ih h')
  | begun _ ih => exact .begun (ih h')
  | ended hleft _ ih => exact .ended hleft (ih h')

/-- Turns can be taken apart where their journal is. -/
theorem split (h : Turns slot cell (journal ++ journal') cell'') :
    ∃ cell', Turns slot cell journal cell' ∧ Turns slot cell' journal' cell'' := by
  induction journal generalizing cell with
  | nil => exact ⟨cell, .nil _, h⟩
  | cons moment rest ih =>
    cases h with
    | other hmoment hrest =>
      obtain ⟨between, hfirst, hsecond⟩ := ih hrest
      exact ⟨between, .other hmoment hfirst, hsecond⟩
    | begun hrest =>
      obtain ⟨between, hfirst, hsecond⟩ := ih hrest
      exact ⟨between, .begun hfirst, hsecond⟩
    | ended hleft hrest =>
      obtain ⟨between, hfirst, hsecond⟩ := ih hrest
      exact ⟨between, .ended hleft hfirst, hsecond⟩

/-- A value stays, and nobody attempts to make it again. -/
theorem of_ready (h : Turns slot (.ready object) journal cell) :
    cell = .ready object ∧ ∀ moment ∈ journal, ¬ moment.Concerns slot := by
  generalize hstart : Cell.ready object = start at h
  induction h with
  | nil => exact ⟨rfl, by simp⟩
  | other hmoment _ ih =>
    obtain ⟨hcell, hrest⟩ := ih hstart
    exact ⟨hcell, List.forall_mem_cons.mpr ⟨hmoment, hrest⟩⟩
  | begun _ _ => cases hstart
  | ended _ _ _ => cases hstart

/-- A cell without a value has one afterwards if an attempt to make it succeeded, and only then. -/
theorem ready_iff (h : Turns slot cell journal cell') (hcell : ∀ object, cell ≠ .ready object) :
    cell' = .ready object ↔ .ended slot (.ready object) ∈ journal := by
  induction h with
  | nil cell => simp [hcell object]
  | @other moment _ _ _ hmoment _ ih =>
    have hne : moment ≠ .ended slot (.ready object) := fun heq => hmoment (heq ▸ rfl)
    simp [ih hcell, hne.symm]
  | begun _ ih => simp [ih (by simp)]
  | @ended _ _ left _ _ hrest ih =>
    cases left with
    | ready made =>
      obtain ⟨hend, hquiet⟩ := hrest.of_ready
      simpa [hend, eq_comm] using fun hmem => (hquiet (.ended slot (.ready object)) hmem rfl).elim
    | empty => simp [ih (by simp)]
    | creating number => simp [ih (by simp)]

/-- After an attempt succeeded nothing more happens to the cell. -/
theorem quiet_after (h : Turns slot cell (journal ++ .ended slot (.ready object) :: journal') cell') :
    ∀ moment ∈ journal', ¬ moment.Concerns slot := by
  obtain ⟨between, -, hrest⟩ := h.split
  cases hrest with
  | other hmoment _ => exact absurd rfl hmoment
  | ended _ hafter => exact hafter.of_ready.2

end Cell.Turns

/-! ### The cells during a resolution -/

/-- The cells that are being made are those on a stack, each by one of some resolutions. -/
structure World.Making (w : World V E) (makers : Nat → Prop) (making : List Slot) : Prop where
  creating : ∀ {slot creator}, w.cells slot = .creating creator → makers creator ∧ slot ∈ making
  made : ∀ {slot}, slot ∈ making → ∃ creator, w.cells slot = .creating creator
  distinct : making.Nodup

/-- By the rules only some resolutions ask for cells, and if one of them may have to wait for another, runs
may halt for that. -/
structure Conduct.Engages (C : Conduct V E) (makers : Nat → Prop) (halts : Halt → Prop) : Prop where
  asks : ∀ {making resolution slot}, C.asks making resolution slot → makers resolution.number
  waits : ∀ {number creator}, makers number → makers creator → creator ≠ number → halts .stuck
  tooDeep : halts .tooDeep

/-- A run leaves the stack as it says, or halts as it may; the cells change as its journal tells. -/
def Run.Unwinds (run : Run V E α) (C : Conduct V E) (makers : Nat → Prop) (halts : Halt → Prop)
    (ends : α → List Slot → Prop) (w : World V E) (journal : List (Moment V E)) : Prop :=
  run.Meets (fun halt => halts halt ∧ ∀ slot, ∃ cell, Cell.Turns slot (w.cells slot) journal cell)
    fun result w' => C.holds w'.components ∧ (∃ left, ends result left ∧ w'.Making makers left) ∧
      ∀ slot, Cell.Turns slot (w.cells slot) journal (w'.cells slot)

namespace World

variable {w w' : World V E} {makers : Nat → Prop} {making : List Slot} {slot : Slot}

/-- Nothing is on the stack if no value is being made. -/
theorem Making.of_idle (hidle : ∀ slot creator, w.cells slot ≠ .creating creator) : w.Making makers [] :=
  ⟨fun hslot => absurd hslot (hidle _ _), fun hmem => by simp at hmem, List.nodup_nil⟩

/-- The stack once the task of making a value has been taken on. -/
theorem Making.begin {number : Nat} (h : w.Making makers making) (hslot : w.cells slot = .empty)
    (hnumber : makers number) : (w.setCell slot (.creating number)).Making makers (slot :: making) where
  creating {other creator} hother := by
    by_cases heq : other = slot
    · subst heq
      rw [setCell_self] at hother
      exact ⟨Cell.creating.inj hother ▸ hnumber, List.mem_cons_self⟩
    · rw [setCell_ne heq] at hother
      obtain ⟨hcreator, hmem⟩ := h.creating hother
      exact ⟨hcreator, List.mem_cons_of_mem _ hmem⟩
  made {other} hother := by
    by_cases heq : other = slot
    · exact ⟨number, heq ▸ setCell_self _ _ _⟩
    · rw [setCell_ne heq]
      exact h.made ((List.mem_cons.mp hother).resolve_left heq)
  distinct := List.nodup_cons.mpr ⟨fun hmem => by simpa [hslot] using h.made hmem, h.distinct⟩

/-- The stack once the innermost value has been made or given up. -/
theorem Making.settle {cell : Cell V} (h : w.Making makers (slot :: making))
    (hcell : ∀ resolution, cell ≠ .creating resolution) : (w.setCell slot cell).Making makers making where
  creating {other creator} hother := by
    by_cases heq : other = slot
    · subst heq
      rw [setCell_self] at hother
      exact absurd hother (hcell creator)
    · rw [setCell_ne heq] at hother
      obtain ⟨hcreator, hmem⟩ := h.creating hother
      exact ⟨hcreator, (List.mem_cons.mp hmem).resolve_left heq⟩
  made {other} hother := by
    have hne : other ≠ slot := fun heq => (List.nodup_cons.mp h.distinct).1 (heq ▸ hother)
    rw [setCell_ne hne]
    exact h.made (List.mem_cons_of_mem _ hother)
  distinct := (List.nodup_cons.mp h.distinct).2

/-- The stack depends on the cells only. -/
theorem Making.of_cells (h : w.Making makers making) (hcells : w'.cells = w.cells) : w'.Making makers making :=
  ⟨fun hslot => h.creating (hcells ▸ hslot), fun hslot => hcells ▸ h.made hslot, h.distinct⟩

/-- Every cell lives through a change of one of them. -/
theorem turns_setCell {cell left : Cell V} {journal : List (Moment V E)} (moment : Moment V E)
    (hmoment : ∀ other, other ≠ slot → ¬ moment.Concerns other)
    (hslot : ∀ {cell' : Cell V}, Cell.Turns slot left journal cell' →
      Cell.Turns slot (w.cells slot) (moment :: journal) cell')
    {other : Slot} (h : Cell.Turns other ((w.setCell slot left).cells other) journal cell) :
    Cell.Turns other (w.cells other) (moment :: journal) cell := by
  by_cases heq : other = slot
  · subst heq
    rw [setCell_self] at h
    exact hslot h
  · rw [setCell_ne heq] at h
    exact .other (hmoment other heq) h

end World

section Runs

variable {C : Conduct V E} {makers : Nat → Prop} {halts : Halt → Prop}
  {answer : Call V → World V E → Run V E (Reply V)} {record : Call V → World V E → List (Moment V E)}

/-- Whether a run ends or halts, its journal tells how every cell changes. -/
theorem Run.Unwinds.turns {run : Run V E α} {ends : α → List Slot → Prop} {w : World V E}
    {journal : List (Moment V E)} (h : run.Unwinds C makers halts ends w journal) (slot : Slot) :
    ∃ cell, Cell.Turns slot (w.cells slot) journal cell := by
  cases run with
  | error halt => exact h.2 slot
  | ok pair => exact ⟨_, h.2.2 slot⟩

/-- Calls that are allowed leave the stack as it was. -/
def Call.Unwinding (C : Conduct V E) (makers : Nat → Prop) (halts : Halt → Prop)
    (answer : Call V → World V E → Run V E (Reply V)) (record : Call V → World V E → List (Moment V E)) : Prop :=
  ∀ {request making w}, C.calls making request → C.holds w.components → w.Making makers making →
    (answer request w).Unwinds C makers halts (fun _ left => left = making) w (record request w)

/-- Whatever happens first comes before how a run goes on. -/
theorem Run.Unwinds.after {run : Run V E α} {ends : α → List Slot → Prop} {w w' : World V E}
    {journal : List (Moment V E)} (h : run.Unwinds C makers halts ends w' journal) (first : List (Moment V E))
    (hfirst : ∀ {slot cell}, Cell.Turns slot (w'.cells slot) journal cell →
      Cell.Turns slot (w.cells slot) (first ++ journal) cell) :
    run.Unwinds C makers halts ends w (first ++ journal) := by
  refine Run.Meets.mono h (fun halt hhalt => ⟨hhalt.1, fun slot => ?_⟩) fun result after hafter =>
    ⟨hafter.1, hafter.2.1, fun slot => hfirst (hafter.2.2 slot)⟩
  obtain ⟨cell, hcell⟩ := hhalt.2 slot
  exact ⟨cell, hfirst hcell⟩

/-- A run of a task that keeps the rules unwinds to the stack that the task ends with. -/
theorem Task.Follows.unwinds (hC : C.Engages makers halts) (hanswer : Call.Unwinding C makers halts answer record)
    {ends : α → List Slot → Prop} {task : Task V E α} {making : List Slot} (h : task.Follows C ends making)
    {w : World V E} (hw : C.holds w.components) (hmaking : w.Making makers making) :
    (task.run answer w).Unwinds C makers halts ends w (task.journal answer record w) := by
  induction task generalizing making w with
  | done result => exact ⟨hw, ⟨making, h, hmaking⟩, fun slot => .nil _⟩
  | act change next ih =>
    obtain ⟨hchange, hnext⟩ := h w hw
    have hrest := ih w hnext hchange.components (hmaking.of_cells hchange.cells)
    exact hrest.after [] fun hslot => hchange.cells ▸ hslot
  | acquire slot resolution next ih =>
    obtain ⟨hasks, hready, hcycle, hgranted⟩ := h
    unfold Task.run Task.journal
    cases hcell : w.cells slot with
    | ready object => exact ih _ (hready object) hw hmaking
    | creating creator =>
      dsimp only
      split
      · exact ih _ hcycle hw hmaking
      · next hother =>
        exact ⟨hC.waits (hC.asks hasks) (hmaking.creating hcell).1 hother, fun other => ⟨_, .nil _⟩⟩
    | empty =>
      have hrest := ih _ hgranted (w := w.setCell slot (.creating resolution.number)) hw
        (hmaking.begin hcell (hC.asks hasks))
      exact hrest.after [.begun slot] fun hslot =>
        World.turns_setCell (.begun slot) (fun other hne heq => hne (Eq.symm heq))
          (fun hturns => hcell ▸ .begun hturns) hslot
  | settle slot cell next ih =>
    obtain ⟨hcell, -, rest, rfl, hnext⟩ := h
    obtain ⟨creator, hcreator⟩ := hmaking.made List.mem_cons_self
    have hrest := ih hnext (w := w.setCell slot cell) hw (hmaking.settle hcell)
    exact hrest.after [.ended slot cell] fun hslot =>
      World.turns_setCell (.ended slot cell) (fun other hne heq => hne (Eq.symm heq))
        (fun hturns => hcreator ▸ .ended hcell hturns) hslot
  | notify slot next ih => exact ih h hw hmaking
  | call request next ih =>
    obtain ⟨hcalls, hnext⟩ := h
    have hcall := hanswer hcalls hw hmaking
    unfold Task.run Task.journal
    cases hreply : answer request w with
    | error halt =>
      rw [hreply] at hcall
      simpa [Run.Unwinds, Run.Meets] using hcall
    | ok pair =>
      rw [hreply] at hcall
      obtain ⟨hholds, ⟨_, rfl, hmaking'⟩, hturns⟩ := hcall
      exact (ih _ (hnext _) hholds hmaking').after _ fun hslot => (hturns _).append hslot
  | meet gate next ih => exact ih h hw hmaking

/-- Nested calls unwind, however deep they are nested. -/
theorem Call.unwinding [Hashed V] (hlawful : C.Lawful) (hC : C.Engages makers halts) (depth : Nat) :
    Call.Unwinding C makers halts (Call.answer depth) (Call.journal depth) := by
  induction depth with
  | zero => exact fun _ _ _ => ⟨hC.tooDeep, fun slot => ⟨_, .nil _⟩⟩
  | succ depth ih =>
    intro request making w hcalls hw hmaking
    have hbody := (Call.body_keeps hlawful hcalls).unwinds hC ih hw hmaking
    have hcalled := hbody.after [.called request w] fun hslot => .other (fun hfalse => hfalse) hslot
    exact hcalled.mono (fun _ => id) fun reply w' ⟨hw', ⟨left, hleft, hmaking'⟩, hturns⟩ =>
      ⟨hw', ⟨left, hleft.1, hmaking'⟩, hturns⟩

/-- A top-level request unwinds to the empty stack that it starts from. -/
theorem Query.unwinds [Hashed V] (hlawful : C.Lawful) (hC : C.Engages makers halts) {w : World V E}
    (hw : C.holds w.components) (hidle : ∀ slot creator, w.cells slot ≠ .creating creator) {q : Query V}
    {c : ComponentId} (hcalls : C.calls [] (q.call c w)) (depth : Nat) :
    (w.run depth (q.task c)).Unwinds C makers halts (fun _ left => left = []) w (w.journal depth (q.task c)) := by
  have hmaking : w.entered.Making makers [] := .of_idle hidle
  have hcall : (Call.answer depth (q.call c w) w.entered).Unwinds C makers halts (fun _ left => left = []) w
      (Call.journal depth (q.call c w) w.entered) := Call.unwinding hlawful hC depth hcalls hw hmaking
  rw [q.journal_task]
  exact Task.meets_bind (Task.meets_call hcall fun _ _ h => h) fun _ _ h => h

/-! ### What nested calls leave -/

/-- A call that is allowed is made and answered, and the values that are kept after it are kept later on. -/
def Call.Lasts (C : Conduct V E) (makers : Nat → Prop) (answer : Call V → World V E → Run V E (Reply V))
    (request : Call V) (v later : World V E) : Prop :=
  ∃ making reply v', C.calls making request ∧ C.holds v.components ∧ v.Making makers making ∧
    answer request v = .ok (reply, v') ∧ ∀ slot object, v'.cells slot = .ready object → later.cells slot = .ready object

/-- If a task that keeps the rules comes to an end, the calls that it makes last until then. -/
theorem Task.Follows.lasts (hC : C.Engages makers halts) (hanswer : Call.Unwinding C makers halts answer record)
    {ends : α → List Slot → Prop} {task : Task V E α} {making : List Slot} (h : task.Follows C ends making)
    {w w' : World V E} (hw : C.holds w.components) (hmaking : w.Making makers making) {result : α}
    (hrun : task.run answer w = .ok (result, w')) {request : Call V} {v : World V E}
    (hmakes : task.Makes answer w request v) : request.Lasts C makers answer v w' := by
  induction task generalizing making w with
  | done other => cases hmakes
  | act change next ih =>
    obtain ⟨hchange, hnext⟩ := h w hw
    exact ih w hnext hchange.components (hmaking.of_cells hchange.cells) hrun hmakes
  | acquire slot resolution next ih =>
    obtain ⟨hasks, hready, hcycle, hgranted⟩ := h
    unfold Makes Task.journal at hmakes
    unfold Task.run at hrun
    cases hcell : w.cells slot with
    | ready object =>
      rw [hcell] at hrun hmakes
      exact ih _ (hready object) hw hmaking hrun hmakes
    | creating creator =>
      simp only [hcell] at hrun hmakes
      split at hrun
      · next hsame =>
        rw [if_pos hsame] at hmakes
        exact ih _ hcycle hw hmaking hrun hmakes
      · cases hrun
    | empty =>
      simp only [hcell, List.mem_cons, reduceCtorEq, false_or] at hrun hmakes
      exact ih _ hgranted (w := w.setCell slot (.creating resolution.number)) hw (hmaking.begin hcell (hC.asks hasks))
        hrun hmakes
  | settle slot cell next ih =>
    obtain ⟨hcell, -, rest, rfl, hnext⟩ := h
    unfold Makes Task.journal at hmakes
    simp only [List.mem_cons, reduceCtorEq, false_or] at hmakes
    exact ih hnext (w := w.setCell slot cell) hw (hmaking.settle hcell) hrun hmakes
  | notify slot next ih => exact ih h hw hmaking hrun hmakes
  | call made next ih =>
    obtain ⟨hcalls, hnext⟩ := h
    have hcall := hanswer hcalls hw hmaking
    unfold Task.run at hrun
    cases hreply : answer made w with
    | error halt => simp [hreply] at hrun
    | ok pair =>
      simp only [hreply] at hrun
      rw [hreply] at hcall
      obtain ⟨hholds, ⟨_, rfl, hmaking'⟩, -⟩ := hcall
      rcases makes_call hmakes with ⟨rfl, rfl⟩ | ⟨reply, between, hanswered, hlater⟩
      · refine ⟨_, _, _, hcalls, hw, hmaking, hreply, fun slot object hready => ?_⟩
        have hrest := ((hnext pair.1).unwinds hC hanswer hholds hmaking').of_ok hrun
        have hturns := hrest.2.2 slot
        rw [hready] at hturns
        exact hturns.of_ready.1
      · obtain rfl := Except.ok.inj (hreply.symm.trans hanswered)
        exact ih _ (hnext _) hholds hmaking' hrun hlater
  | meet gate next ih => exact ih h hw hmaking hrun hmakes

/-- If a call comes to an end, all calls that are taken up within it last until then. -/
theorem Call.lasts_of_called [Hashed V] (hlawful : C.Lawful) (hC : C.Engages makers halts) {depth : Nat}
    {outer request : Call V} {u u' v : World V E} {making : List Slot} {reply : Reply V}
    (hcalls : C.calls making outer) (hu : C.holds u.components) (hmaking : u.Making makers making)
    (hanswer : Call.answer depth outer u = .ok (reply, u'))
    (hcalled : .called request v ∈ Call.journal depth outer u) :
    ∃ depth', request.Lasts C makers (Call.answer depth') v u' := by
  induction depth generalizing outer u u' making reply with
  | zero => cases hcalled
  | succ depth ih =>
    rcases List.mem_cons.mp hcalled with hsame | hwithin
    · obtain ⟨rfl, rfl⟩ := Moment.called.inj hsame
      exact ⟨depth + 1, making, reply, u', hcalls, hu, hmaking, hanswer, fun _ _ => id⟩
    · obtain ⟨inner, t, hmakes, hinner, -⟩ := Task.called_mem hwithin
      obtain ⟨making', reply', t', hcalls', ht, hmaking', hanswer', hkept⟩ :=
        (Call.body_keeps hlawful hcalls).lasts hC (Call.unwinding hlawful hC depth) hu hmaking hanswer hmakes
      obtain ⟨depth', making'', reply'', v', hallowed, hv, hmaking'', hanswered, hlasts⟩ :=
        ih hcalls' ht hmaking' hanswer' hinner
      exact ⟨depth', making'', reply'', v', hallowed, hv, hmaking'', hanswered,
        fun slot object hready => hkept slot object (hlasts slot object hready)⟩

end Runs

/-! ### What any request leaves -/

/-- Without any rules every request may be made, and may have to wait. -/
theorem Conduct.engages_lax : (Conduct.lax : Conduct V E).Engages (fun _ => True) fun _ => True :=
  ⟨fun _ => trivial, fun _ _ _ => trivial, trivial⟩

section Leaving

variable [Hashed V] {w w' : World V E} {q : Query V} {c : ComponentId} {depth : Nat} {reply : Reply V}
  (hidle : ∀ slot creator, w.cells slot ≠ .creating creator) (hrun : w.run depth (q.task c) = .ok (reply, w'))
include hidle hrun

/-- If no value is being made when a top-level request is made, none is when it has been answered, and cells have
changed as its journal tells. -/
theorem Query.settles : (∀ slot creator, w'.cells slot ≠ .creating creator) ∧
    ∀ slot, Cell.Turns slot (w.cells slot) (w.journal depth (q.task c)) (w'.cells slot) := by
  obtain ⟨-, ⟨_, rfl, hmaking⟩, hturns⟩ :=
    (Query.unwinds Conduct.lawful_lax Conduct.engages_lax trivial hidle trivial depth).of_ok hrun
  exact ⟨fun slot creator hslot => absurd (hmaking.creating hslot).2 List.not_mem_nil, hturns⟩

/-- All calls that are taken up meanwhile are answered, and what is kept after them is kept in the end. -/
theorem Query.lasts_of_called {request : Call V} {v : World V E}
    (hcalled : .called request v ∈ w.journal depth (q.task c)) :
    ∃ depth', request.Lasts .lax (fun _ => True) (Call.answer depth') v w' := by
  have hmaking : w.entered.Making (fun _ => True) [] := .of_idle hidle
  obtain ⟨_, hanswer, -⟩ := Query.answer_of_run hrun
  rw [q.journal_task] at hcalled
  exact Call.lasts_of_called Conduct.lawful_lax Conduct.engages_lax trivial trivial hmaking hanswer hcalled

end Leaving

end Injection

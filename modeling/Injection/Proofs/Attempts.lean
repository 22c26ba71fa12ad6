import Injection.Proofs.Propagation

/-!
# Which attempts a journal tells of

The making of a value that is kept for a stored binding is noted down when the binding's definition is run, and
nowhere else: it begins right after the call that runs the definition is taken up, and if it ends with an object,
that is what the call is answered.
-/

namespace Injection

variable {V E α : Type}

/-! ### Attempts that end -/

/-- The conduct by which only shared values are asked for. -/
def Conduct.sharedOnly : Conduct V E :=
  ⟨fun _ => True, fun _ _ => True, fun _ _ slot => ∃ entry, slot = .shared entry, fun _ _ => True⟩

/-- Programs themselves ask for no cells but those of shared values. -/
theorem Program.fits_sharedOnly (context : Context V) (program : Program V E) (making : List Slot) :
    program.Fits .sharedOnly context making := by
  induction program generalizing making with
  | done outcome => trivial
  | request key parameters next ih => exact ⟨trivial, fun reply => ih reply _⟩
  | start component key parameters next ih => exact ⟨fun _ _ => trivial, fun reply => ih reply _⟩
  | forward owner key next ih => exact ⟨trivial, fun reply => ih reply _⟩
  | share entry body next ihbody ih => exact ⟨⟨entry, rfl⟩, ihbody _, fun reply => ih reply _⟩
  | make type value next ih => exact fun object => ih object _
  | touch change next ih => exact fun before => ih before _
  | report event next ih => exact ih _
  | meet gate next ih => exact ih _

section Tasks

variable {answer : Call V → World V E → Run V E (Reply V)} {record : Call V → World V E → List (Moment V E)}
  {w : World V E} {slot : Slot} {cell : Cell V}

/-- An attempt ends within a task that keeps the rules only if the rules allow to ask for the cell, or within a call
that the task makes. -/
theorem Task.Follows.ended_mem {C : Conduct V E} {P : Slot → Prop} (hmoves : ∀ w : World V E, C.holds w.components)
    (hasks : ∀ {making resolution slot}, C.asks making resolution slot → P slot) {ends : α → List Slot → Prop}
    {task : Task V E α} {making : List Slot} (h : task.Follows C ends making) (hmaking : ∀ other ∈ making, P other)
    (hmem : .ended slot cell ∈ task.journal answer record w) :
    P slot ∨ ∃ request v, .ended slot cell ∈ record request v ∧ record request v ⊆ task.journal answer record w := by
  induction task generalizing making w with
  | done result => cases hmem
  | act change next ih => exact ih w (h w (hmoves w)).2 hmaking hmem
  | acquire other resolution next ih =>
    obtain ⟨hslot, hready, hcycle, hgranted⟩ := h
    rw [journal_acquire] at hmem ⊢
    cases hacquire : w.acquire? other resolution with
    | none => simp [hacquire] at hmem
    | some pair =>
      obtain ⟨grant, w'⟩ := pair
      rw [hacquire] at hmem
      have hrest : P slot ∨ ∃ request v, .ended slot cell ∈ record request v ∧
          record request v ⊆ (next grant).journal answer record w' := by
        cases grant with
        | ready object => exact ih _ (hready object) hmaking hmem
        | cycle => exact ih _ hcycle hmaking hmem
        | granted =>
          refine ih _ hgranted (List.forall_mem_cons.mpr ⟨hasks hslot, hmaking⟩) ?_
          exact (List.mem_cons.mp hmem).resolve_left (by simp)
      refine hrest.imp_right ?_
      rintro ⟨request, v, hended, hsubset⟩
      exact ⟨request, v, hended, List.Subset.trans hsubset (List.subset_append_right _ _)⟩
  | settle other left next ih =>
    obtain ⟨-, -, rest, rfl, hnext⟩ := h
    obtain ⟨hother, hrest⟩ := List.forall_mem_cons.mp hmaking
    rcases List.mem_cons.mp hmem with hsame | hlater
    · exact .inl ((Moment.ended.inj hsame).1 ▸ hother)
    · refine (ih hnext hrest hlater).imp_right ?_
      rintro ⟨request, v, hended, hsubset⟩
      exact ⟨request, v, hended, List.Subset.trans hsubset (List.subset_cons_self _ _)⟩
  | notify other next ih => exact ih h hmaking hmem
  | call request next ih =>
    obtain ⟨-, hnext⟩ := h
    unfold journal at hmem ⊢
    rcases List.mem_append.mp hmem with hnow | hlater
    · exact .inr ⟨request, w, hnow, List.subset_append_left _ _⟩
    · cases hreply : answer request w with
      | error halt => simp [hreply] at hlater
      | ok pair =>
        simp only [hreply] at hlater
        refine (ih _ (hnext _) hmaking hlater).imp_right ?_
        rintro ⟨inner, v, hended, hsubset⟩
        exact ⟨inner, v, hended, List.Subset.trans hsubset (List.subset_append_right _ _)⟩
  | meet gate next ih => exact ih h hmaking hmem

/-- Within a definition that is run, attempts at values of stored bindings end only within the calls it makes. -/
theorem Stored.ended_mem_create {stored : Stored V E} {context : Context V} (hslot : ∀ entry, slot ≠ .shared entry)
    (hmem : .ended slot cell ∈ (stored.create context).journal answer record w) :
    ∃ request v, .ended slot cell ∈ record request v ∧
      record request v ⊆ (stored.create context).journal answer record w := by
  have hkeeps : (stored.create context).Keeps .sharedOnly [] :=
    (Program.toTask_keeps (Program.fits_sharedOnly _ _ _)).bind fun _ _ => .done trivial
  have hended := Task.Follows.ended_mem (P := fun slot => ∃ entry, slot = .shared entry) (fun _ => trivial) id hkeeps
    (by simp) hmem
  exact hended.resolve_left fun ⟨entry, hshared⟩ => hslot entry hshared

end Tasks

/-- If an attempt at a value of a stored binding has ended, a call has run the binding's definition, and if there is
an object, the definition has come to it. -/
theorem Call.exists_visit_of_ended [Hashed V] {depth : Nat} {outer : Call V} {u : World V E} {slot : Slot}
    {cell : Cell V} (hslot : ∀ entry, slot ≠ .shared entry) (hmem : .ended slot cell ∈ Call.journal depth outer u) :
    ∃ request v visit, .called request v ∈ Call.journal depth outer u ∧ request.visit? v = some visit ∧
      visit.stored.slot? visit.context = some slot ∧ ∀ object, cell = .ready object →
        ∃ depth' made, (visit.stored.create visit.context).run (Call.answer depth') visit.world =
          .ok (.ok object, made) := by
  induction depth generalizing outer u with
  | zero => cases hmem
  | succ depth ih =>
    have hwithin := (List.mem_cons.mp hmem).resolve_left (by simp)
    rw [Call.body_journal] at hwithin
    cases hvisit : outer.visit? u with
    | none => simp [hvisit] at hwithin
    | some visit =>
      have hjournal : outer.body.journal (Call.answer depth) (Call.journal depth) u =
          visit.journal (Call.answer depth) (Call.journal depth) := by rw [Call.body_journal, hvisit]; rfl
      have hnested (hcreated : .ended slot cell ∈ (visit.stored.create visit.context).journal (Call.answer depth)
          (Call.journal depth) visit.world) :
          ∃ request v visit, .called request v ∈ Call.journal (depth + 1) outer u ∧ request.visit? v = some visit ∧
            visit.stored.slot? visit.context = some slot ∧ ∀ object, cell = .ready object →
              ∃ depth' made, (visit.stored.create visit.context).run (Call.answer depth') visit.world =
                .ok (.ok object, made) := by
        obtain ⟨inner, t, hended, hsubset⟩ := Stored.ended_mem_create hslot hcreated
        obtain ⟨request, v, found, hcalled, hrest⟩ := ih hended
        refine ⟨request, v, found, List.mem_cons_of_mem _ ?_, hrest⟩
        rw [hjournal]
        exact visit.creation_subset _ _ (hsubset hcalled)
      rw [hvisit, Option.elim_some, Visit.journal] at hwithin
      cases hkept : visit.stored.slot? visit.context with
      | none =>
        rw [hkept] at hwithin
        exact hnested hwithin
      | some other =>
        simp only [hkept, List.cons_append, List.mem_cons, reduceCtorEq, false_or, List.mem_append] at hwithin
        rcases hwithin with hcreated | hended
        · exact hnested hcreated
        · refine ⟨outer, u, visit, List.mem_cons_self, hvisit, ?_⟩
          split at hended
          · next object made hrun =>
            obtain ⟨rfl, rfl⟩ := Moment.ended.inj (List.mem_singleton.mp hended)
            refine ⟨hkept, ?_⟩
            rintro _ ⟨⟩
            exact ⟨depth, made, hrun⟩
          · obtain ⟨rfl, rfl⟩ := Moment.ended.inj (List.mem_singleton.mp hended)
            exact ⟨hkept, by simp⟩
          · cases hended

/-! ### Attempts that begin -/

/-- Whenever a call is taken up that runs a definition whose value is kept, an attempt to make the value is what
begins next. -/
def Moment.Prompt [Hashed V] : List (Moment V E) → Prop
  | [] => True
  | .called request v :: rest =>
    (∀ visit slot, request.visit? v = some visit → visit.stored.slot? visit.context = some slot →
      rest.head? = some (.begun slot)) ∧ Prompt rest
  | .begun _ :: rest | .ended _ _ :: rest => Prompt rest

namespace Moment.Prompt

variable [Hashed V] {journal journal' after : List (Moment V E)}

/-- Prompt journals make up a prompt journal. -/
theorem append (h : Prompt journal) (h' : Prompt journal') : Prompt (journal ++ journal') := by
  induction journal with
  | nil => exact h'
  | cons moment rest ih =>
    cases moment with
    | begun slot => exact ih h
    | ended slot cell => exact ih h
    | called request v =>
      refine ⟨fun visit slot hvisit hslot => ?_, ih h.2⟩
      exact List.head?_append.trans (congrArg (Option.or · journal'.head?) (h.1 visit slot hvisit hslot))

/-- What follows on something is as prompt. -/
theorem right (h : Prompt (journal ++ journal')) : Prompt journal' := by
  induction journal with
  | nil => exact h
  | cons moment rest ih =>
    cases moment with
    | begun slot => exact ih h
    | ended slot cell => exact ih h
    | called request v => exact ih h.2

/-- A call that runs a definition has the attempt begin behind it. -/
theorem begun_mem (h : Prompt journal) {request : Call V} {v : World V E} (hcalled : .called request v ∈ journal)
    {visit : Visit V E} {slot : Slot} (hvisit : request.visit? v = some visit)
    (hslot : visit.stored.slot? visit.context = some slot) : .begun slot ∈ journal := by
  obtain ⟨before, after, rfl⟩ := List.append_of_mem hcalled
  have hnext := h.right.1 visit slot hvisit hslot
  exact List.mem_append_right _ (List.mem_cons_of_mem _ (List.mem_of_mem_head? hnext))

end Moment.Prompt

/-- A task is prompt if the calls that it makes are. -/
theorem Task.journal_prompt [Hashed V] {answer : Call V → World V E → Run V E (Reply V)}
    {record : Call V → World V E → List (Moment V E)} (hrecord : ∀ request v, Moment.Prompt (record request v))
    (task : Task V E α) (w : World V E) : Moment.Prompt (task.journal answer record w) := by
  induction task generalizing w with
  | done result => trivial
  | act change next ih => exact ih w _
  | acquire slot resolution next ih =>
    unfold journal
    cases w.cells slot with
    | ready object => exact ih _ w
    | empty => exact ih _ _
    | creating creator =>
      dsimp only
      split
      · exact ih _ w
      · trivial
  | settle slot cell next ih => exact ih _
  | notify slot next ih => exact ih w
  | call request next ih =>
    unfold journal
    refine (hrecord request w).append ?_
    cases answer request w with
    | ok pair => exact ih _ _
    | error halt => trivial
  | meet gate next ih => exact ih w

/-- Calls are prompt, however deep they are nested. -/
theorem Call.journal_prompt [Hashed V] (depth : Nat) (request : Call V) (w : World V E) :
    Moment.Prompt (Call.journal depth request w) := by
  induction depth generalizing request w with
  | zero => trivial
  | succ depth ih =>
    refine ⟨fun visit slot hvisit hslot => ?_, Task.journal_prompt ih _ _⟩
    rw [Call.body_journal, hvisit, Option.elim_some, Visit.journal]
    simp only [hslot, List.cons_append, List.head?_cons]

/-- So are top-level requests. -/
theorem Query.journal_prompt [Hashed V] (q : Query V) (c : ComponentId) (depth : Nat) (w : World V E) :
    Moment.Prompt (w.journal depth (q.task c)) := by
  rw [q.journal_task]
  exact Call.journal_prompt _ _ _

end Injection

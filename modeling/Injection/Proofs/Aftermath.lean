import Injection.Proofs.Accounts
import Injection.Proofs.Creations

/-!
# What requests leave behind in the cells

As long as definitions make requests only through their context, the cells that are being made while a
resolution is under way are the ones on its own stack. None is left when the top-level request returns. A
thread therefore never waits for a value, and a cell has a value exactly if one of the creations for it came to
that value.
-/

namespace Injection

variable {V E α : Type}

/-! ### Contextual definitions -/

/-- Where definitions make requests only through their context, no other resolution is ever waited for. -/
theorem Conduct.engages_contextual (number : Nat) :
    (Conduct.descending .flat number : Conduct V E).Engages (· = number) (· ≠ .stuck) where
  asks hasks := hasks.1
  waits hnumber hcreator hne := absurd (hcreator.trans hnumber.symm) hne
  tooDeep := by simp

/-- A top-level request among contextual definitions unwinds without waiting for anybody. -/
theorem Query.unwinds_contextual [Hashed V] {w : World V E} (hw : w.Contextual)
    (hidle : ∀ slot creator, w.cells slot ≠ .creating creator) (q : Query V) (c : ComponentId) (depth : Nat) :
    (w.run depth (q.task c)).Unwinds (.descending .flat w.nextResolution) (· = w.nextResolution) (· ≠ .stuck)
      (fun _ left => left = []) w (w.journal depth (q.task c)) :=
  Query.unwinds (Conduct.lawful_descending .flat _) (Conduct.engages_contextual _) hw hidle
    ⟨rfl, fun _ hmem => absurd hmem List.not_mem_nil⟩ depth

/-! ### Any number of requests -/

/-- The world after what a journal tells and what has been made meanwhile. It starts with definitions that make
requests only through their context, and before any value is made. Then top-level requests are made and answered,
and in between anything may change that leaves the cells alone and definitions contextual: components are built and
dropped, and the surroundings move on. -/
inductive World.Chronicle [Hashed V] : World V E → List (Moment V E) → List (Creation V E) → Prop
  | start {w : World V E} : w.Contextual → (∀ slot, w.cells slot = .empty) → w.Chronicle [] []
  | changed {w w' : World V E} {journal : List (Moment V E)} {creations : List (Creation V E)} :
      w.Chronicle journal creations → w'.Contextual → w'.cells = w.cells → w'.Chronicle journal creations
  | requested {w w' : World V E} {journal : List (Moment V E)} {creations : List (Creation V E)} {q : Query V}
      {c : ComponentId} {depth : Nat} {reply : Reply V} :
      w.Chronicle journal creations → w.run depth (q.task c) = .ok (reply, w') →
        w'.Chronicle (journal ++ w.journal depth (q.task c)) (creations ++ w.creations depth q c)

/-- The context that the definition of a stored binding is handed for a top-level query. -/
def Query.context (q : Query V) (c : ComponentId) (w : World V E) (stored : Stored V E) : Context V :=
  { component := stored.owner, key := q.key, parameters := q.parameters, path := [q.key]
    resolution := ⟨w.nextResolution, (w.config c).logger <|> none⟩ }

namespace World

variable [Hashed V] {w w' : World V E} {journal : List (Moment V E)} {creations : List (Creation V E)}

/-- Between top-level requests no value is being made, cells have changed as the journal tells, and the journal tells
of what has been made. -/
theorem Chronicle.settled (h : w.Chronicle journal creations) :
    w.Contextual ∧ (∀ slot creator, w.cells slot ≠ .creating creator) ∧
      (∀ slot, Cell.Turns slot .empty journal (w.cells slot)) ∧ Moment.Tells False journal creations := by
  induction h with
  | start hw hempty => exact ⟨hw, fun slot => by simp [hempty], fun slot => hempty slot ▸ .nil _, .nothing⟩
  | changed _ hw' hcells ih =>
    rw [hcells]
    exact ⟨hw', ih.2⟩
  | requested _ hrun ih =>
    obtain ⟨hw, hidle, hturns, htells⟩ := ih
    obtain ⟨hw', ⟨_, rfl, hmaking⟩, hrequest⟩ := (Query.unwinds_contextual hw hidle _ _ _).of_ok hrun
    refine ⟨hw', fun slot creator hslot => ?_, fun slot => (hturns slot).append (hrequest slot),
      htells.append (Query.tells_of_run hrun)⟩
    exact absurd (hmaking.creating hslot).2 List.not_mem_nil

/-- Whatever has been made belongs to a definition that was run for one of the calls in the journal. -/
theorem Chronicle.exists_visit (h : w.Chronicle journal creations) {creation : Creation V E}
    (hmem : creation ∈ creations) : ∃ request v visit, .called request v ∈ journal ∧
      request.visit? v = some visit ∧ visit.Begins creation := by
  induction h with
  | start _ _ => cases hmem
  | changed _ _ _ ih => exact ih hmem
  | requested _ _ ih =>
    rcases List.mem_append.mp hmem with hbefore | hnow
    · obtain ⟨request, v, visit, hcalled, hvisit⟩ := ih hbefore
      exact ⟨request, v, visit, List.mem_append_left _ hcalled, hvisit⟩
    · obtain ⟨request, v, visit, hcalled, hvisit⟩ := Query.exists_visit_of_creation hnow
      exact ⟨request, v, visit, List.mem_append_right _ hcalled, hvisit⟩

/-- What a key is located at is what is found for it, if anything is. Nothing changes by that. -/
theorem locate_found {key : Key} {c : ComponentId} {stored : Stored V E} (h : w.found? key c = some stored)
    (resolution : Resolution) :
    ∃ w', w.run 0 (Resolution.locate resolution key c) = .ok (.ok (some stored), w') ∧ w.Alike w' := by
  obtain ⟨found, hrun, hcomponents⟩ := Resolution.search_run (Call.answer 0) resolution c key w
  rw [h] at hrun
  have hlocate : w.run 0 (Resolution.locate resolution key c) = .ok (.ok (some stored), found) :=
    Task.run_bind_of_ok hrun
  have hyields : (Resolution.locate resolution key c : Task V E _).Yields .lax _ [] :=
    Resolution.locate_yields Conduct.lawful_lax c
  have hmeets := hyields.meets (Resolution.locate_acts resolution key c) (w := w) trivial (Call.answer 0) fun _ => True
  obtain ⟨-, -, hcells, hobjects⟩ := hmeets.of_ok hlocate
  exact ⟨found, hlocate, hcomponents, hcells, hobjects⟩

end World

section Visits

variable [Hashed V] {w : World V E} {stored : Stored V E} {context : Context V}

/-- A stored binding whose value is not there is obtained by running its definition. Components and the
other cells are as before when it starts. -/
theorem Stored.exists_visit (stored : Stored V E) (context : Context V)
    (hparameters : stored.binding.kind = .multi → context.parameters ≠ [])
    (hempty : ∀ slot, stored.slot? context = some slot → w.cells slot = .empty) :
    ∃ v, stored.visit? context w = some ⟨stored, context, v⟩ ∧ v.components = w.components ∧
      ∀ other, stored.slot? context ≠ some other → v.cells other = w.cells other := by
  unfold visit?
  unfold slot? at hempty ⊢
  have hopens (slot : Slot) (u : World V E) (hu : w.Alike u) (hslot : w.cells slot = .empty) :
      ∃ v, stored.opening? context slot u = some ⟨stored, context, v⟩ ∧ v.components = w.components ∧
        ∀ other, some slot ≠ some other → v.cells other = w.cells other := by
    refine ⟨_, by simp only [opening?, hu.cells, hslot]; rfl, ?_, fun other hne => ?_⟩
    · rw [World.emit_components]
      exact hu.components
    · have hother : other ≠ slot := fun heq => hne (congrArg some heq.symm)
      rw [World.emit_cells, World.setCell_ne hother, hu.cells]
  cases hkind : stored.binding.kind with
  | factory => exact ⟨w, rfl, rfl, fun _ _ => rfl⟩
  | single =>
    rw [hkind] at hempty
    exact hopens _ w (.refl w) (hempty _ rfl)
  | multi =>
    rw [hkind] at hempty
    have hsome : context.parameters.isEmpty = false := by simpa using hparameters hkind
    simp only [hsome]
    exact hopens _ _ (w.alike_emit _ _) (hempty _ rfl)

/-- A top-level query for what is found, and not made yet, runs its definition. -/
theorem Query.exists_visit {q : Query V} {c : ComponentId} (hfound : w.found? q.key c = some stored)
    (hparameters : stored.binding.kind = .multi → q.parameters ≠ [])
    (hempty : ∀ slot, stored.slot? (q.context c w stored) = some slot → w.cells slot = .empty) :
    ∃ v, (q.call c w).visit? w.entered = some ⟨stored, q.context c w stored, v⟩ ∧ v.components = w.components ∧
      ∀ other, stored.slot? (q.context c w stored) ≠ some other → v.cells other = w.cells other := by
  let resolution : Resolution := ⟨w.nextResolution, (w.config c).logger <|> none⟩
  let asked := w.entered.emit resolution.logger (.lookup q.key)
  have hasked : w.Alike asked := w.alike_entered.trans (w.entered.alike_emit _ _)
  have hfound' : asked.found? q.key c = some stored :=
    (World.foundWithin?_of_components hasked.components _ c).trans hfound
  obtain ⟨found, hlocate, hsame⟩ := World.locate_found hfound' resolution
  have hw := hasked.trans hsame
  obtain ⟨v, hvisit, hcomponents, hother⟩ := stored.exists_visit (q.context c w stored) hparameters
    (hw.cells ▸ hempty)
  refine ⟨v, ?_, hcomponents.trans hw.components, hw.cells ▸ hother⟩
  simp only [asked, resolution] at hlocate
  simp only [Query.call, Call.visit?, List.any_nil, hlocate]
  exact hvisit

/-- A definition that passes the request on to another component calls there, if the component is alive. -/
theorem Visit.called_forward {visit : Visit V E} {owner : ComponentId} {key : Key}
    {next : Except ResolveError (Object V) → Program V E}
    (hprogram : visit.stored.binding.definition visit.context = .forward owner key next)
    (halive : visit.world.isAlive owner = true) (depth : Nat) :
    .called (.obtain owner key { visit.context with component := owner }) visit.world ∈
      visit.journal (Call.answer (depth + 1)) (Call.journal (depth + 1)) := by
  apply visit.creation_subset
  unfold Stored.create
  rw [hprogram]
  change _ ∈ Task.journal _ _ (Task.bind (if visit.world.isAlive owner then _ else _) _) visit.world
  rw [if_pos halive]
  unfold Task.bind Task.journal
  exact List.mem_append_left _ List.mem_cons_self

end Visits

/-- None of the creations for a cell has come to a value. -/
def Slot.Unmade [Hashed V] (slot : Slot) (creations : List (Creation V E)) : Prop :=
  ∀ creation ∈ creations, creation.slot = slot → ¬ creation.Succeeds

/-- The value of a stored binding can be made in a context, and has not been made. -/
def Stored.Unmade [Hashed V] (stored : Stored V E) (context : Context V) (creations : List (Creation V E)) : Prop :=
  (stored.binding.kind = .multi → context.parameters ≠ []) ∧
    ∀ slot, stored.slot? context = some slot → slot.Unmade creations

/-- What requests and what has been made while they were answered say of the cells, and what the next request does. -/
structure World.Unscathed [Hashed V] (w : World V E) (journal : List (Moment V E)) (creations : List (Creation V E)) :
    Prop where
  /-- No run waits for a value that is being made. -/
  never_stuck : ∀ (q : Query V) (c : ComponentId) (depth : Nat), w.run depth (q.task c) ≠ .error .stuck
  /-- Every cell is empty or has a value. -/
  settled : ∀ slot, w.cells slot = .empty ∨ ∃ object, w.cells slot = .ready object
  /-- Whatever was made belongs to a definition that was run for one of the calls in the journal. -/
  origin : ∀ creation ∈ creations, ∃ request v visit, .called request v ∈ journal ∧
    request.visit? v = some visit ∧ visit.Begins creation
  /-- Every creation has come to an object or to an error. -/
  concluded : ∀ creation ∈ creations, ∃ outcome, creation.ComesTo outcome
  /-- That is what the journal says of its end: the cell has the object then, or is empty again. -/
  ended_iff : ∀ slot cell, .ended slot cell ∈ journal ↔
    ∃ creation ∈ creations, creation.slot = slot ∧ ∃ outcome, creation.ComesTo outcome ∧ cell = .after outcome
  /-- A cell has a value exactly if one of its creations has come to that value. -/
  ready_iff : ∀ slot object, w.cells slot = .ready object ↔
    ∃ creation ∈ creations, creation.slot = slot ∧ creation.ComesTo (.ok object)
  /-- After a creation has succeeded there is no other for its cell. -/
  once : creations.Pairwise fun creation later => creation.Succeeds → later.slot ≠ creation.slot
  /-- Nor does anything else happen to the cell. -/
  quiet : ∀ slot object before after, journal = before ++ .ended slot (.ready object) :: after →
    ∀ moment ∈ after, ¬ moment.Concerns slot
  /-- Nor does anything happen to it later, and no definition runs for it. -/
  never_again : ∀ creation ∈ creations, creation.Succeeds → ∀ (q : Query V) (c : ComponentId) (depth : Nat),
    (∀ later ∈ w.creations depth q c, later.slot ≠ creation.slot) ∧
      (∀ moment ∈ w.journal depth (q.task c), ¬ moment.Concerns creation.slot) ∧
        ∀ visit, w.Visits depth (q.task c) visit → visit.stored.slot? visit.context ≠ some creation.slot
  /-- As long as no creation has succeeded, a request runs the definition of what is found for its key, to keep what
  it makes as its kind says, and comes to what the definition comes to. -/
  again : ∀ {q : Query V} {c : ComponentId} {stored : Stored V E}, w.found? q.key c = some stored →
    stored.Unmade (q.context c w stored) creations → ∃ v,
      (∀ depth, w.Visits (depth + 1) (q.task c) ⟨stored, q.context c w stored, v⟩ ∧
        ∀ slot, stored.slot? (q.context c w stored) = some slot →
          ⟨slot, q.context c w stored, stored.binding.definition (q.context c w stored), v⟩ ∈
            w.creations (depth + 1) q c) ∧
      ∀ depth outcome made,
        v.run depth ((stored.binding.definition (q.context c w stored)).toTask (q.context c w stored)) =
            .ok (outcome, made) →
          ∃ w', w.run (depth + 1) (q.task c) =
            .ok (q.accept ((outcome.mapError DefinitionError.toResolveError).map some), w')
  /-- If the definition shares the value of a catalog entry that has not been made either, it makes that as well. -/
  again_shared : ∀ {q : Query V} {c : ComponentId} {stored : Stored V E} {entry : EntryId}
      {body : Program V E} {next : Except ResolveError (Object V) → Program V E},
    w.found? q.key c = some stored → stored.Unmade (q.context c w stored) creations →
    stored.binding.definition (q.context c w stored) = .share entry body next →
    Slot.Unmade (.shared entry) creations →
      ∃ u, ∀ depth, ⟨.shared entry, q.context c w stored, body, u⟩ ∈ w.creations (depth + 1) q c
  /-- If it keeps no value and passes the request on, the definition runs that it is passed on to. -/
  again_forwarded : ∀ {q : Query V} {c owner : ComponentId} {stored : Stored V E} {key : Key}
      {next : Except ResolveError (Object V) → Program V E} {binding : Binding V E},
    w.found? q.key c = some stored → stored.binding.kind = .factory →
    stored.binding.definition (q.context c w stored) = .forward owner key next →
    w.isAlive owner = true → w.binding? owner key.identity = some binding →
    Stored.Unmade ⟨owner, binding⟩ (q.context c w stored) creations → ∃ v, ∀ depth,
      let context := { q.context c w stored with component := owner }
      w.Visits (depth + 2) (q.task c) ⟨⟨owner, binding⟩, context, v⟩ ∧
        ∀ slot, Stored.slot? ⟨owner, binding⟩ context = some slot →
          ⟨slot, context, binding.definition context, v⟩ ∈ w.creations (depth + 2) q c

namespace World

section Requests

variable [Hashed V] {w : World V E} {q : Query V} {c : ComponentId}

/-- A request that runs a definition leaves behind what the definition does. -/
theorem journal_of_visit {visit : Visit V E} (h : (q.call c w).visit? w.entered = some visit) (depth : Nat) :
    w.journal (depth + 1) (q.task c) =
      .called (q.call c w) w.entered :: visit.journal (Call.answer depth) (Call.journal depth) := by
  rw [q.journal_task, Call.journal, Call.body_journal, h]
  rfl

/-- A request whose definition comes to an outcome comes to it. -/
theorem run_of_visit {visit : Visit V E} (hvisit : (q.call c w).visit? w.entered = some visit) {depth : Nat}
    {outcome : Outcome V} {made : World V E}
    (hrun : visit.world.run depth ((visit.stored.binding.definition visit.context).toTask visit.context) =
      .ok (outcome, made)) :
    ∃ w', w.run (depth + 1) (q.task c) =
      .ok (q.accept ((outcome.mapError DefinitionError.toResolveError).map some), w') := by
  obtain ⟨w', hanswer⟩ := Call.answer_of_visit hvisit hrun
  refine ⟨w', ?_⟩
  rw [q.run_eq, hanswer]
  rfl

end Requests

namespace Chronicle

variable [Hashed V] {w : World V E} {journal : List (Moment V E)} {creations : List (Creation V E)}
  (h : w.Chronicle journal creations)
include h

/-- A cell has a value exactly if one of its creations has come to that value. -/
theorem ready_iff (slot : Slot) (object : Object V) : w.cells slot = .ready object ↔
    ∃ creation ∈ creations, creation.slot = slot ∧ creation.ComesTo (.ok object) := by
  obtain ⟨-, -, hturns, htells⟩ := h.settled
  exact ((hturns slot).ready_iff (by simp)).trans htells.made_iff

/-- Every cell is empty or has a value. -/
theorem empty_or_ready (slot : Slot) : w.cells slot = .empty ∨ ∃ object, w.cells slot = .ready object := by
  cases hslot : w.cells slot with
  | empty => exact .inl rfl
  | creating creator => exact absurd hslot (h.settled.2.1 slot creator)
  | ready object => exact .inr ⟨object, rfl⟩

/-- A cell is empty if none of its creations has come to a value. -/
theorem empty_of_unmade {slot : Slot} (hslot : slot.Unmade creations) : w.cells slot = .empty := by
  refine (h.empty_or_ready slot).resolve_right ?_
  rintro ⟨object, hobject⟩
  obtain ⟨creation, hmem, hsame, hcomes⟩ := (h.ready_iff slot object).mp hobject
  exact hslot creation hmem hsame ⟨object, hcomes⟩

/-- A request for what is found, and has not been made, runs its definition, where the other cells are as before. -/
theorem exists_visit_of_unmade {q : Query V} {c : ComponentId} {stored : Stored V E}
    (hfound : w.found? q.key c = some stored) (hunmade : stored.Unmade (q.context c w stored) creations) :
    ∃ v, (q.call c w).visit? w.entered = some ⟨stored, q.context c w stored, v⟩ ∧ v.components = w.components ∧
      ∀ other, stored.slot? (q.context c w stored) ≠ some other → v.cells other = w.cells other :=
  Query.exists_visit hfound hunmade.1 fun slot hslot => h.empty_of_unmade (hunmade.2 slot hslot)

/-- After a creation has succeeded nothing happens to its cell, whatever is requested next. -/
theorem never_again {creation : Creation V E} (hmem : creation ∈ creations) (hsucceeds : creation.Succeeds)
    (q : Query V) (c : ComponentId) (depth : Nat) :
    (∀ later ∈ w.creations depth q c, later.slot ≠ creation.slot) ∧
      (∀ moment ∈ w.journal depth (q.task c), ¬ moment.Concerns creation.slot) ∧
        ∀ visit, w.Visits depth (q.task c) visit → visit.stored.slot? visit.context ≠ some creation.slot := by
  obtain ⟨hw, hidle, -, -⟩ := h.settled
  obtain ⟨object, hobject⟩ := hsucceeds
  obtain ⟨cell, hrequest⟩ := (Query.unwinds_contextual hw hidle q c depth).turns creation.slot
  rw [(h.ready_iff creation.slot object).mpr ⟨creation, hmem, rfl, hobject⟩] at hrequest
  have hquiet := hrequest.of_ready.2
  refine ⟨Query.creations_ne hquiet, hquiet, fun visit hvisits hslot => ?_⟩
  obtain ⟨depth', hsubset⟩ := hvisits.journal_subset
  exact hquiet _ (hsubset (Visit.begun_mem hslot)) rfl

/-- A request for what passes it on runs the definition that it is passed on to, if its value has not been made. -/
theorem again_forwarded {q : Query V} {c owner : ComponentId} {stored : Stored V E} {key : Key}
    {next : Except ResolveError (Object V) → Program V E} {binding : Binding V E}
    (hfound : w.found? q.key c = some stored) (hkind : stored.binding.kind = .factory)
    (hprogram : stored.binding.definition (q.context c w stored) = .forward owner key next)
    (halive : w.isAlive owner = true) (hbinding : w.binding? owner key.identity = some binding)
    (hunmade : Stored.Unmade ⟨owner, binding⟩ (q.context c w stored) creations) : ∃ v, ∀ depth,
      let context := { q.context c w stored with component := owner }
      w.Visits (depth + 2) (q.task c) ⟨⟨owner, binding⟩, context, v⟩ ∧
        ∀ slot, Stored.slot? ⟨owner, binding⟩ context = some slot →
          ⟨slot, context, binding.definition context, v⟩ ∈ w.creations (depth + 2) q c := by
  have hnone : stored.slot? (q.context c w stored) = none := by simp [Stored.slot?, hkind]
  obtain ⟨v, hv, hcomponents, hcells⟩ := h.exists_visit_of_unmade hfound ⟨by simp [hkind], by simp [hnone]⟩
  have hsame : w.Grows v := .of_components hcomponents
  have halive' : v.isAlive owner = true := (hsame.alive owner).trans halive
  obtain ⟨u, hu, -⟩ := Stored.exists_visit (w := v) ⟨owner, binding⟩ { q.context c w stored with component := owner }
    hunmade.1 fun slot hslot => (hcells slot (by simp [hnone])).trans (h.empty_of_unmade (hunmade.2 slot hslot))
  have hpassed : (Call.obtain owner key { q.context c w stored with component := owner }).visit? v =
      some ⟨⟨owner, binding⟩, { q.context c w stored with component := owner }, u⟩ := by
    change (v.binding? owner key.identity).bind _ = _
    rw [hsame.binding? hbinding]
    exact hu
  refine ⟨u, fun depth => ⟨⟨_, v, ?_, hpassed⟩, fun slot hslot => ?_⟩⟩
  · rw [journal_of_visit hv]
    exact List.mem_cons_of_mem _ (Visit.called_forward hprogram halive' depth)
  · rw [creations_of_visit hv]
    refine Visit.forward_subset hprogram halive' ?_
    rw [Call.creations, hpassed]
    exact Visit.kept_mem hslot

/-- Whatever requests have been made, no attempt that failed is left in the cells. -/
theorem unscathed : w.Unscathed journal creations := by
  obtain ⟨hw, hidle, hturns, htells⟩ := h.settled
  exact {
    never_stuck := fun q c depth hstuck => by
      have hrun := Query.unwinds_contextual hw hidle q c depth
      rw [hstuck] at hrun
      exact hrun.1 rfl
    settled := h.empty_or_ready
    origin := fun _ => h.exists_visit
    concluded := fun creation hmem => by
      obtain ⟨outcome, hcomes, -⟩ := htells.exists_outcome hmem
      exact ⟨outcome, hcomes⟩
    ended_iff := fun slot cell => htells.ended_iff
    ready_iff := h.ready_iff
    once := htells.once fun slot => ⟨_, _, hturns slot⟩
    quiet := by
      rintro slot object before after rfl
      exact (hturns slot).quiet_after
    never_again := fun creation => h.never_again
    again := fun hfound hunmade => by
      obtain ⟨v, hv, -⟩ := h.exists_visit_of_unmade hfound hunmade
      refine ⟨v, fun depth => ⟨⟨_, _, journal_of_visit hv depth ▸ List.mem_cons_self, hv⟩, fun slot hslot => ?_⟩,
        fun depth outcome made hrun => run_of_visit hv hrun⟩
      rw [creations_of_visit hv]
      exact Visit.kept_mem hslot
    again_shared := fun {q c stored entry body next} hfound hunmade hprogram hshared => by
      obtain ⟨v, hv, -, hcells⟩ := h.exists_visit_of_unmade hfound hunmade
      have hempty : v.cells (.shared entry) = .empty :=
        (hcells _ stored.slot?_ne_shared).trans (h.empty_of_unmade hshared)
      refine ⟨v.opened (.shared entry) (q.context c w stored), fun depth => ?_⟩
      rw [creations_of_visit hv]
      exact Visit.share_mem hprogram hempty
    again_forwarded := h.again_forwarded }

end Chronicle

end World

/-! ### A value that is made at the second attempt -/

/-- An entry whose shared value cannot be constructed at first. -/
def CatalogEntry.reluctant : CatalogEntry Unit Bool :=
  ⟨0, ⟨.nth 0, "Factory", .everywhere, true, none, none, []⟩, fun _ => do
    let tried ← Action.touch fun _ => true
    return if tried then .ok (⟨0⟩, ()) else .error "not yet"⟩

/-- The catalog of this entry. -/
def Catalog.reluctant : Catalog Unit Bool := ⟨[.reluctant]⟩

/-- A component that falls back on this catalog. -/
def World.reluctant : World Unit Bool :=
  { World.initial false with components := [⟨[], [], [], ⟨none, [Catalog.reluctant.factory]⟩, true⟩] }

/-- The definitions of the reluctant entry request only in their contexts, for nothing else is stored or listed. -/
theorem World.contextual_reluctant : World.reluctant.Contextual := by
  intro component hcomponent
  obtain rfl := List.mem_singleton.mp hcomponent
  refine ⟨nofun, fun factory hfactory key c => ?_⟩
  obtain rfl := List.mem_singleton.mp hfactory
  refine Catalog.factory_descends (fun entry hentry _ => ?_) c
  obtain rfl := List.mem_singleton.mp (List.mem_of_find?_eq_some hentry)
  refine ⟨trivial, fun context tried => ?_⟩
  cases tried
  · trivial
  · exact fun object => trivial

/-- What fails at first leaves its cells empty, is made at the second attempt, and is not made again then. -/
theorem World.Chronicle.unscathed_reluctant :
    ∃ (w₁ w₂ w₃ : World Unit Bool) (e : ResolveError) (object : Object Unit) (journal : List (Moment Unit Bool))
      (creations : List (Creation Unit Bool)),
      World.reluctant.run 2 ((Query.get (.nth 0) []).task 0) = .ok (.error e, w₁) ∧
        w₁.run 2 ((Query.get (.nth 0) []).task 0) = .ok (.ok (some object), w₂) ∧
          w₂.run 2 ((Query.get (.nth 0) []).task 0) = .ok (.ok (some object), w₃) ∧
            w₃.Unscathed journal creations ∧ w₁.cells (.nth 0) = .empty ∧ w₁.cells (.shared 0) = .empty ∧
              (∃ failed ∈ creations, failed.slot = .shared 0 ∧ ¬ failed.Succeeds) ∧
                (∃ made ∈ creations, made.slot = .shared 0 ∧ made.ComesTo (.ok object)) ∧
                  w₂.creations 2 (Query.get (.nth 0) []) 0 = [] := by
  obtain ⟨w₁, w₂, w₃, e, object, hfails, hmakes, hagain, hsingle, hshared, hended, hready, hnone⟩ :
      ∃ (w₁ w₂ w₃ : World Unit Bool) (e : ResolveError) (object : Object Unit),
        World.reluctant.run 2 ((Query.get (.nth 0) []).task 0) = .ok (.error e, w₁) ∧
          w₁.run 2 ((Query.get (.nth 0) []).task 0) = .ok (.ok (some object), w₂) ∧
            w₂.run 2 ((Query.get (.nth 0) []).task 0) = .ok (.ok (some object), w₃) ∧
              w₁.cells (.nth 0) = .empty ∧ w₁.cells (.shared 0) = .empty ∧
                .ended (.shared 0) .empty ∈ World.reluctant.journal 2 ((Query.get (.nth 0) []).task 0) ∧
                  w₃.cells (.shared 0) = .ready object ∧ w₂.creations 2 (Query.get (.nth 0) []) 0 = [] :=
    ⟨_, _, _, _, _, rfl, rfl, rfl, rfl, rfl, .tail _ (.tail _ (.tail _ (.head _))), rfl, rfl⟩
  have hstart := Chronicle.start World.contextual_reluctant fun _ => rfl
  have hunscathed := (((hstart.requested hfails).requested hmakes).requested hagain).unscathed
  obtain ⟨failed, hfailed, hslot, outcome, hcomes, hempty⟩ := (hunscathed.ended_iff (.shared 0) .empty).mp
    (by simp [hended])
  refine ⟨w₁, w₂, w₃, e, object, _, _, hfails, hmakes, hagain, hunscathed, hsingle, hshared,
    ⟨failed, hfailed, hslot, ?_⟩, (hunscathed.ready_iff _ _).mp hready, hnone⟩
  cases outcome with
  | ok given => cases hempty
  | error cause => exact hcomes.not_succeeds

end Injection

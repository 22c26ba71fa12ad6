import Injection.Proofs.Attempts
import Injection.Proofs.Distinction
import Injection.Proofs.Singleton

/-!
# One object for every list of parameters

A multi binding keeps a value for every list of parameters that it is asked with, told apart by their fingerprints.
Whoever asks with a list is given the object that was made for the list, and lists that differ are given different
objects. Making a value may fail any number of times, and may need other values of the same binding; a failure
leaves everything as it was, and the value is made by whoever asks for it next. Nothing is made for the empty list.
-/

namespace Injection

variable {V E α : Type}

section Definitions

variable [Hashed V]

/-- As many values, of the same types and equal one by one. -/
def Parameters.Same (ps qs : Parameters V) : Prop :=
  List.Forall₂ (fun p q : Parameter V => p.type.id = q.type.id ∧ p.value = q.value) ps qs

/-- A call asks for the value of a stored binding for a list of parameters: the binding is found for its key, or the
call comes from a component that passes requests on. -/
inductive Call.Obtains (stored : Stored V E) (v : World V E) : Call V → Parameters V → Prop
  | found {c : ComponentId} {path : List Key} {resolution : Resolution} {key : Key} {ps : Parameters V} :
      (∀ visited ∈ path, visited.site ≠ key.site) → v.found? key c = some stored →
        Obtains stored v (.resolve c path resolution key ps) ps
  | passed {key : Key} {context : Context V} : v.binding? stored.owner key.identity = some stored.binding →
      Obtains stored v (.obtain stored.owner key context) context.parameters

/-- The call comes to an object of a stored binding for a list of parameters. -/
def Call.Brings (request : Call V) (v : World V E) (stored : Stored V E) (ps : Parameters V) (object : Object V) :
    Prop :=
  request.Obtains stored v ps ∧ ∃ depth v', Call.answer depth request v = .ok (.ok (some object), v')

/-- The world after what a journal tells, from one where a component stores the binding and has no value of it for
any list of parameters. Top-level requests are made and answered, for whatever keys and at whatever components. In
between components may be built and dropped, more bindings may be stored, objects may be made, and anything may
happen outside of the container. -/
inductive World.Elapsed (stored : Stored V E) : World V E → List (Moment V E) → Prop
  | start {w : World V E} : w.binding? stored.owner stored.binding.key.identity = some stored.binding →
      (∀ slot creator, w.cells slot ≠ .creating creator) →
        (∀ fingerprint, w.cells (stored.place fingerprint) = .empty) → Elapsed stored w []
  | changed {w w' : World V E} {journal : List (Moment V E)} : Elapsed stored w journal → w.Accrues w' →
      w'.cells = w.cells → w.nextObject ≤ w'.nextObject → Elapsed stored w' journal
  | requested {w w' : World V E} {journal : List (Moment V E)} {q : Query V} {c : ComponentId} {depth : Nat}
      {reply : Reply V} : Elapsed stored w journal → w.run depth (q.task c) = .ok (reply, w') →
        Elapsed stored w' (journal ++ w.journal depth (q.task c))

end Definitions

/-- Equal lists write the same bytes. -/
theorem Parameters.Same.stream_eq [Hashed V] {ps qs : Parameters V} (h : ps.Same qs) : ps.stream = qs.stream := by
  have hvalues : ps.flatMap Parameter.stream = qs.flatMap Parameter.stream := by
    induction h with
    | nil => rfl
    | cons hsame _ ih =>
      rw [List.flatMap_cons, List.flatMap_cons, ih, Parameter.stream, Parameter.stream, hsame.1, hsame.2]
  rw [stream, stream, hvalues, List.Forall₂.length_eq h]

/-- So they have equal fingerprints. -/
theorem Parameters.Same.hashKey_eq [Hashed V] {ps qs : Parameters V} (h : ps.Same qs) : ps.hashKey = qs.hashKey :=
  congrArg Digest.ofBytes h.stream_eq

/-! ### What calls for a stored binding come to -/

section Obtaining

variable [Hashed V] {answer : Call V → World V E → Run V E (Reply V)} {stored : Stored V E} {v v' w : World V E}
  {context : Context V} {request : Call V} {ps : Parameters V} {depth : Nat}

/-- A value that is kept in a cell is there in the end, or it was not there and the cell is as it was. -/
theorem Stored.obtain_slot {slot : Slot} (hslot : stored.slot? context = some slot)
    (hps : stored.binding.kind = .multi → context.parameters ≠ []) :
    ((stored.obtain context).run answer w).Meets (fun _ => True) fun result w' =>
      match result with
      | .ok object => w'.cells slot = .ready object
      | .error _ => w'.cells slot = w.cells slot ∧ ∀ object, w.cells slot ≠ .ready object := by
  obtain ⟨asked, hcells, hkeep⟩ : ∃ asked : World V E, asked.cells = w.cells ∧ (stored.obtain context).run answer w =
      (Task.keep slot context (stored.create context)).run answer asked := by
    unfold slot? at hslot
    unfold obtain
    dsimp only
    cases hkind : stored.binding.kind with
    | factory => simp [hkind] at hslot
    | single =>
      rw [hkind] at hslot
      exact ⟨w, rfl, by rw [← Option.some.inj hslot]⟩
    | multi =>
      have hnonempty : ¬ context.parameters.isEmpty := by simpa using hps hkind
      rw [hkind] at hslot
      exact ⟨_, w.emit_cells _ _, by rw [if_neg hnonempty, Task.run_emit, ← Option.some.inj hslot]⟩
  rw [hkeep, ← hcells]
  apply Task.keep_meets
  · intro object w' hready halike
    exact (congrFun halike.cells _).trans hready
  · intro w' hcreating halike
    exact ⟨congrFun halike.cells _, fun object hready => by cases hcreating.symm.trans hready⟩
  · exact fun _ _ _ => trivial
  · intro hempty w' _
    have hanything : ((stored.create context).run answer w').Meets (fun _ => True) fun _ _ => True := by
      cases (stored.create context).run answer w' <;> trivial
    refine hanything.mono (fun _ => id) fun result made _ => ?_
    cases result with
    | ok object => exact fun w'' halike => (congrFun halike.cells _).trans (World.setCell_self _ _ _)
    | error e => exact ⟨(World.setCell_self _ _ _).trans hempty.symm, fun object hready => by cases hempty.symm.trans hready⟩

/-- Nothing is obtained for the empty list. -/
theorem Stored.obtain_bare (hkind : stored.binding.kind = .multi) (hps : context.parameters = []) :
    (stored.obtain context).run answer w = .ok (.error (.missingParameters stored.binding.key), w) := by
  unfold obtain
  simp only [hkind, hps, List.isEmpty_nil]
  rfl

/-- What is passed on when a value has been obtained, or has not. -/
def Task.PassesOn (finish : Except ResolveError (Object V) → Task V E (Reply V)) : Prop :=
  ∀ result w, ∃ w', (∀ answer, (finish result).run answer w = .ok (result.map some, w')) ∧ w.Coincides w'

/-- A call for a stored binding obtains the value in a context with the call's parameters, in a world that differs
by reports, and passes it on. -/
theorem Call.Obtains.exists_context (h : request.Obtains stored v ps) :
    ∃ context u finish, context.parameters = ps ∧ v.Coincides u ∧ request.visit? v = stored.visit? context u ∧
      Task.PassesOn finish ∧ ∀ depth, Call.answer (depth + 1) request v =
        ((stored.obtain context).bind finish).run (Call.answer depth) u := by
  cases h with
  | @found c path resolution key ps hfresh hfound =>
    have hasked : (v.emit resolution.logger (.lookup key)).found? key c = some stored :=
      (World.foundWithin?_of_components (World.emit_components _ _ _) _ c).trans hfound
    obtain ⟨u, hlocate, hu⟩ := Resolution.locate_of_found hasked resolution
    refine ⟨_, u, Resolution.deliver resolution, ?_, (v.coincides_emit _ _).trans hu, ?_, fun result w => ?_,
      fun depth => Call.answer_resolve hfresh hlocate depth⟩
    · rfl
    · have hnot : ¬ (path.any fun visited => visited.site = key.site) := by simpa using hfresh
      simp only [Call.visit?, if_neg hnot, World.run, hlocate]
    · cases result with
      | ok object => exact ⟨w, fun _ => rfl, .refl w⟩
      | error e => exact ⟨_, fun _ => rfl, w.coincides_emit resolution.logger (.failure e)⟩
  | @passed key context hbinding =>
    refine ⟨context, v, fun result => .done (result.map some), rfl, .refl v, ?_,
      fun result w => ⟨w, fun _ => rfl, .refl w⟩, fun depth => ?_⟩
    · simp only [Call.visit?, hbinding, Option.bind_some]
    · change (Call.body _).run _ v = _
      unfold Call.body
      simp only [Task.run_read, hbinding]
      refine congrArg (fun rest => (Task.bind _ rest).run _ v) (funext fun result => ?_)
      cases result <;> rfl

/-- A definition that is run for a stored binding is run for a call that asks for its value, with the list that it
is asked for. -/
theorem Call.Obtains.of_visit (hstored : v.binding? stored.owner stored.binding.key.identity = some stored.binding)
    {visit : Visit V E} (hvisit : request.visit? v = some visit) (hsame : visit.stored = stored) :
    request.Obtains stored v visit.context.parameters := by
  cases Visit.answers_of_visit? hvisit with
  | @located c path resolution key parameters found hfresh hlocate hcontext _ =>
    obtain rfl := hsame
    rw [hcontext]
    obtain ⟨asked, hlocates⟩ := Resolution.Locates.of_run hlocate
    have hcomponents := v.emit_components resolution.logger (.lookup key)
    have hfound := hlocates.found_of_stored ((World.binding?_of_components hcomponents _).trans hstored)
    exact .found hfresh ((World.foundWithin?_of_components hcomponents _ c).symm.trans hfound)
  | named hbinding hother hcontext _ =>
    obtain rfl := hother.symm.trans hsame
    rw [hcontext]
    exact .passed hbinding

/-- What a call for a stored binding is answered is what obtaining the value comes to. -/
theorem Call.Obtains.exists_obtain (h : request.Obtains stored v ps) {reply : Reply V}
    (hanswer : Call.answer depth request v = .ok (reply, v')) :
    ∃ depth' context u result u', context.parameters = ps ∧ v.Coincides u ∧
      (stored.obtain context).run (Call.answer depth') u = .ok (result, u') ∧ reply = result.map some ∧
        u'.Coincides v' := by
  obtain ⟨context, u, finish, hcontext, hu, -, hfinish, hbody⟩ := h.exists_context
  cases depth with
  | zero => cases hanswer
  | succ depth =>
    rw [hbody] at hanswer
    obtain ⟨result, u', hrun, hrest⟩ := Task.run_bind_eq_ok hanswer
    obtain ⟨last, hlast, hu'⟩ := hfinish result u'
    obtain ⟨rfl, rfl⟩ := Prod.mk.inj (Except.ok.inj ((hlast _).symm.trans hrest))
    exact ⟨depth, context, u, result, u', hcontext, hu, hrun, rfl, hu'⟩

/-- A call for a value that is kept in a cell has it kept there if it is given an object, and otherwise leaves the
cell as it was, and without a value. -/
theorem Call.Obtains.slot_of_answer (h : request.Obtains stored v ps) {slot : Slot}
    (hslot : ∀ context : Context V, context.parameters = ps → stored.slot? context = some slot)
    (hps : stored.binding.kind = .multi → ps ≠ []) {reply : Reply V}
    (hanswer : Call.answer depth request v = .ok (reply, v')) :
    (∀ object, reply = .ok (some object) → v'.cells slot = .ready object) ∧
      ∀ e, reply = .error e → v'.cells slot = v.cells slot ∧ ∀ object, v.cells slot ≠ .ready object := by
  obtain ⟨depth', context, u, result, u', rfl, hu, hrun, hreply, hv'⟩ := h.exists_obtain hanswer
  have hkept := (Stored.obtain_slot (hslot context rfl) hps).of_ok hrun
  rw [hreply, hv'.cells, ← hu.cells]
  cases result with
  | ok object => exact ⟨by rintro _ ⟨⟩; exact hkept, nofun⟩
  | error e => exact ⟨nofun, fun _ _ => hkept⟩

section Multi

variable (hkind : stored.binding.kind = .multi)
include hkind

/-- A call without parameters fails, whatever has been made, and runs no definition. -/
theorem Call.Obtains.bare (h : request.Obtains stored v []) (depth : Nat) :
    request.visit? v = none ∧ ∃ v', Call.answer (depth + 1) request v =
      .ok (.error (.missingParameters stored.binding.key), v') ∧ v.Coincides v' := by
  obtain ⟨context, u, finish, hcontext, hu, hvisit, hfinish, hbody⟩ := h.exists_context
  obtain ⟨v', hlast, hv'⟩ := hfinish (.error (.missingParameters stored.binding.key)) u
  refine ⟨?_, v', ?_, hu.trans hv'⟩
  · simp [hvisit, Stored.visit?, hkind, hcontext]
  · rw [hbody, Task.run_bind_of_ok (Stored.obtain_bare hkind hcontext)]
    exact hlast _

/-- The value for a list is kept in the list's own cell. -/
theorem Stored.slot?_of_multi (context : Context V) :
    stored.slot? context = some (stored.place context.parameters.hashKey) := by
  simp [slot?, hkind, place]

/-- A call that is given an object has it kept for its list, which is not empty. -/
theorem Call.Obtains.place_of_ok (h : request.Obtains stored v ps) {object : Object V}
    (hanswer : Call.answer depth request v = .ok (.ok (some object), v')) :
    ps ≠ [] ∧ v'.cells (stored.place ps.hashKey) = .ready object := by
  have hps : ps ≠ [] := by
    rintro rfl
    obtain ⟨-, _, hbare, -⟩ := h.bare hkind depth
    cases (Prod.mk.inj (Call.answer_unique hanswer hbare)).1
  exact ⟨hps, (h.slot_of_answer (fun context hcontext => hcontext ▸ Stored.slot?_of_multi hkind context) (fun _ => hps)
    hanswer).1 object rfl⟩

/-- A call that fails leaves its list as it was, and without a value. -/
theorem Call.Obtains.place_of_error (h : request.Obtains stored v ps) {e : ResolveError}
    (hanswer : Call.answer depth request v = .ok (.error e, v')) :
    v'.cells (stored.place ps.hashKey) = v.cells (stored.place ps.hashKey) ∧
      (ps ≠ [] → ∀ object, v.cells (stored.place ps.hashKey) ≠ .ready object) := by
  by_cases hps : ps = []
  · subst hps
    cases depth with
    | zero => cases hanswer
    | succ depth =>
      obtain ⟨-, v'', hbare, hv'⟩ := h.bare hkind depth
      obtain ⟨-, rfl⟩ := Prod.mk.inj (Except.ok.inj (hanswer.symm.trans hbare))
      exact ⟨congrFun hv'.cells _, absurd rfl⟩
  · have hkept := (h.slot_of_answer (fun context hcontext => hcontext ▸ Stored.slot?_of_multi hkind context)
      (fun _ => hps) hanswer).2 e rfl
    exact ⟨hkept.1, fun _ => hkept.2⟩

end Multi

/-- If a value of the binding has been made, a call was given it that asked with a list of the fingerprint. -/
theorem Call.exists_brings (hmakes : ∀ context, (stored.binding.definition context).MakesLast) {outer : Call V}
    {u : World V E} (hu : u.Distinguishes stored) {fingerprint : UInt64} {object : Object V}
    (hmem : .ended (stored.place fingerprint) (.ready object) ∈ Call.journal depth outer u) :
    ∃ request v ps, .called request v ∈ Call.journal depth outer u ∧ request.Brings v stored ps object ∧
      ps.hashKey = fingerprint := by
  obtain ⟨request, v, visit, hcalled, hvisit, hslot, hmade⟩ := Call.exists_visit_of_ended (by simp [Stored.place]) hmem
  obtain ⟨depth', made, hrun⟩ := hmade object rfl
  obtain ⟨v', hanswer⟩ := Call.body_run hvisit hrun
  have hv := Call.distinguishes_of_called hmakes hu hcalled
  obtain ⟨haccrues, hstored⟩ := Call.visit?_stored hvisit
  obtain ⟨hsame, hfingerprint⟩ := Stored.eq_of_slot?_place (haccrues hv.binding) hstored hslot
  exact ⟨request, v, _, hcalled, ⟨.of_visit hv.binding hvisit hsame, depth' + 1, v', hanswer⟩,
    hfingerprint⟩

end Obtaining

/-! ### What a history of requests leaves -/

section Histories

variable [Hashed V] {stored : Stored V E} {w w' : World V E} {journal : List (Moment V E)}

/-- What a journal says of the values that are kept for a multi binding. -/
structure World.Tabulates (w : World V E) (stored : Stored V E) (journal : List (Moment V E)) : Prop where
  distinguishes : w.Distinguishes stored
  idle : ∀ slot creator, w.cells slot ≠ .creating creator
  turns : ∀ fingerprint, Cell.Turns (stored.place fingerprint) .empty journal (w.cells (stored.place fingerprint))
  prompt : Moment.Prompt journal
  among : ∀ {request v}, .called request v ∈ journal → v.Distinguishes stored ∧ ∃ making, v.Making (fun _ => True) making
  given : ∀ {request v ps object}, .called request v ∈ journal → request.Brings v stored ps object →
    w.cells (stored.place ps.hashKey) = .ready object
  made : ∀ {fingerprint object}, .ended (stored.place fingerprint) (.ready object) ∈ journal →
    ∃ request v ps, .called request v ∈ journal ∧ request.Brings v stored ps object ∧ ps.hashKey = fingerprint

variable (hkind : stored.binding.kind = .multi) (hmakes : ∀ context, (stored.binding.definition context).MakesLast)
include hkind hmakes

/-- A request that is answered adds what its own journal says. -/
theorem World.Tabulates.request (h : w.Tabulates stored journal) {q : Query V} {c : ComponentId} {depth : Nat}
    {reply : Reply V} (hrun : w.run depth (q.task c) = .ok (reply, w')) :
    w'.Tabulates stored (journal ++ w.journal depth (q.task c)) := by
  obtain ⟨hidle, hturns⟩ := Query.settles h.idle hrun
  obtain ⟨replied, hanswer, -⟩ := Query.answer_of_run hrun
  have hentered : w.entered.Distinguishes stored := h.distinguishes.alike w.alike_entered
  have hlasts {request : Call V} {v : World V E} (hcalled : .called request v ∈ w.journal depth (q.task c)) :=
    Query.lasts_of_called h.idle hrun hcalled
  refine ⟨?_, hidle, fun fingerprint => (h.turns fingerprint).append (hturns _),
    h.prompt.append (q.journal_prompt c depth w), fun hcalled => ?_, fun {request v ps object} hcalled hbrings => ?_,
    fun hended => ?_⟩
  · exact (Contract.distinguishing_kept hmakes depth (q.call c w) w.entered hentered).of_ok hanswer
  · rcases List.mem_append.mp hcalled with hbefore | hnow
    · exact h.among hbefore
    · obtain ⟨_, making, _, _, -, -, hv, -⟩ := hlasts hnow
      rw [q.journal_task] at hnow
      exact ⟨Call.distinguishes_of_called hmakes hentered hnow, making, hv⟩
  · rcases List.mem_append.mp hcalled with hbefore | hnow
    · have hkept := hturns (stored.place ps.hashKey)
      rw [h.given hbefore hbrings] at hkept
      exact hkept.of_ready.1
    · obtain ⟨_, _, replied', v', -, -, -, hreplied, hlast⟩ := hlasts hnow
      obtain ⟨hobtains, depth', v'', hgiven⟩ := hbrings
      obtain ⟨rfl, rfl⟩ := Prod.mk.inj (Call.answer_unique hreplied hgiven)
      exact hlast _ _ (hobtains.place_of_ok hkind hgiven).2
  · rcases List.mem_append.mp hended with hbefore | hnow
    · obtain ⟨request, v, ps, hcalled, hrest⟩ := h.made hbefore
      exact ⟨request, v, ps, List.mem_append_left _ hcalled, hrest⟩
    · rw [q.journal_task] at hnow ⊢
      obtain ⟨request, v, ps, hcalled, hrest⟩ := Call.exists_brings hmakes hentered hnow
      exact ⟨request, v, ps, List.mem_append_right _ hcalled, hrest⟩

/-- Whatever has happened, the journal says what is kept. -/
theorem World.Elapsed.tabulates (h : World.Elapsed stored w journal) : w.Tabulates stored journal := by
  induction h with
  | start hstored hidle hempty =>
    refine ⟨⟨hstored, ?_, ?_⟩, hidle, fun fingerprint => ?_, trivial, nofun, nofun, nofun⟩
    · simp [hempty]
    · simp [hempty]
    · rw [hempty]
      exact .nil _
  | changed _ haccrues hcells hobject ih =>
    exact ⟨ih.distinguishes.of_accrues haccrues hcells hobject, hcells ▸ ih.idle, hcells ▸ ih.turns, ih.prompt,
      ih.among, hcells ▸ ih.given, ih.made⟩
  | requested _ hrun ih => exact ih.request hkind hmakes hrun

end Histories

section Main

variable [Hashed V]

/-- What the journal of any number of requests says of a multi binding. A top-level request is one of the calls in
it, as `requested` says, and so are all requests that definitions make. -/
structure World.OnePerList (w : World V E) (stored : Stored V E) (journal : List (Moment V E)) : Prop where
  /-- At the component that stores it the binding is found for its key. -/
  at_owner : w.found? stored.binding.key stored.owner = some stored
  /-- A top-level request that the binding is found for, and that yields an object, brings it for its list. -/
  requested : ∀ {q : Query V} {c : ComponentId} {depth object w'}, w.found? q.key c = some stored →
    w.run depth (q.task c) = .ok (.ok (some object), w') →
      .called (q.call c w) w.entered ∈ w.journal depth (q.task c) ∧
        (q.call c w).Brings w.entered stored q.parameters object
  /-- Two calls are given the same object exactly if their lists are the same, unless different lists happen to have
  one fingerprint. -/
  same_iff : ∀ {request request' v v' object object'} {ps qs : Parameters V}, .called request v ∈ journal →
    .called request' v' ∈ journal → request.Brings v stored ps object → request'.Brings v' stored qs object' →
      (ps.hashKey = qs.hashKey → ps.Same qs) → (object.number = object'.number ↔ ps.Same qs)
  /-- For one fingerprint all calls are given the very same object. -/
  same : ∀ {request request' v v' object object'} {ps qs : Parameters V}, .called request v ∈ journal →
    .called request' v' ∈ journal → request.Brings v stored ps object → request'.Brings v' stored qs object' →
      ps.hashKey = qs.hashKey → object = object'
  /-- The values that are kept are those that calls have been given. -/
  kept_iff : ∀ {fingerprint object}, w.cells (stored.place fingerprint) = .ready object ↔
    ∃ request v ps, .called request v ∈ journal ∧ request.Brings v stored ps object ∧ ps.hashKey = fingerprint
  /-- The definition is only ever run for a call that asks for the value, with exactly the list of the call, and
  that list is not empty. -/
  exactly : ∀ {request v visit}, .called request v ∈ journal → request.visit? v = some visit → visit.stored = stored →
    request.Obtains stored v visit.context.parameters ∧ visit.context.parameters ≠ []
  /-- If it comes to an object, the value is noted down as made. -/
  succeeded : ∀ {request v visit depth object made}, .called request v ∈ journal → request.visit? v = some visit →
    visit.stored = stored → (stored.create visit.context).run (Call.answer depth) visit.world = .ok (.ok object, made) →
      .ended (stored.place visit.context.parameters.hashKey) (.ready object) ∈ journal
  /-- After a value has been made, nothing happens to it and the definition is not run for its list again. So it
  succeeds at most once for every list. -/
  once : ∀ {fingerprint object before after},
    journal = before ++ .ended (stored.place fingerprint) (.ready object) :: after →
      (∀ moment ∈ after, ¬ moment.Concerns (stored.place fingerprint)) ∧
        ∀ {request v visit}, .called request v ∈ after → request.visit? v = some visit → visit.stored = stored →
          visit.context.parameters.hashKey ≠ fingerprint
  /-- A call that fails leaves its own list as it was. All values that were kept before it are kept after it, and if
  there are others, then because calls that were made meanwhile, for their own lists, have been given them. -/
  failed : ∀ {request v depth e v'} {ps : Parameters V}, .called request v ∈ journal → request.Obtains stored v ps →
    Call.answer depth request v = .ok (.error e, v') →
      v'.cells (stored.place ps.hashKey) = v.cells (stored.place ps.hashKey) ∧
        (ps ≠ [] → ∀ object, v'.cells (stored.place ps.hashKey) ≠ .ready object) ∧
          (∀ fingerprint object, v.cells (stored.place fingerprint) = .ready object →
            v'.cells (stored.place fingerprint) = .ready object) ∧
              ∀ fingerprint object, v'.cells (stored.place fingerprint) = .ready object →
                v.cells (stored.place fingerprint) = .ready object ∨
                  ∃ request' u qs, .called request' u ∈ Call.journal depth request v ∧
                    request'.Brings u stored qs object ∧ qs.hashKey = fingerprint
  /-- As long as no call has been given an object for a list, a request with it runs the definition with it. -/
  retried : ∀ {q : Query V} {c : ComponentId}, w.found? q.key c = some stored → q.parameters ≠ [] →
    (∀ {request v object} {ps : Parameters V}, .called request v ∈ journal → request.Brings v stored ps object →
      ps.hashKey ≠ q.parameters.hashKey) →
        ∀ depth, ∃ v, w.Visits (depth + 1) (q.task c) ⟨stored, q.context c w stored, v⟩
  /-- A call without parameters fails, runs no definition and changes nothing but reports. -/
  bare : ∀ {request : Call V} {v : World V E}, request.Obtains stored v [] → request.visit? v = none ∧
    ∀ depth, ∃ v', Call.answer (depth + 1) request v = .ok (.error (.missingParameters stored.binding.key), v') ∧
      v.Coincides v'
  /-- So does a top-level request without parameters. -/
  bare_request : ∀ {q : Query V} {c : ComponentId}, w.found? q.key c = some stored → q.parameters = [] →
    ∀ depth, (∃ w', w.run (depth + 1) (q.task c) = .ok (.error (.missingParameters stored.binding.key), w') ∧
      w.entered.Coincides w') ∧ ∀ visit, ¬ w.Visits (depth + 1) (q.task c) visit

variable {stored : Stored V E} {w w' : World V E} {journal : List (Moment V E)} {q : Query V} {c : ComponentId}
  {depth : Nat}

omit [Hashed V] in
/-- A top-level request asks for the value of the binding that is found for its key. -/
theorem Query.call_obtains (h : w.found? q.key c = some stored) :
    (q.call c w).Obtains stored w.entered q.parameters :=
  .found (by simp) ((World.foundWithin?_of_components w.alike_entered.components _ c).trans h)

/-- A top-level request that is answered is noted down. -/
theorem Query.called_mem {reply : Reply V} (hrun : w.run depth (q.task c) = .ok (reply, w')) :
    .called (q.call c w) w.entered ∈ w.journal depth (q.task c) := by
  obtain ⟨_, hanswer, -⟩ := Query.answer_of_run hrun
  rw [q.journal_task]
  cases depth with
  | zero => cases hanswer
  | succ depth => exact List.mem_cons_self

/-- A top-level request whose call runs no definition runs none at all. -/
theorem Query.not_visits (h : (q.call c w).visit? w.entered = none) (depth : Nat) (visit : Visit V E) :
    ¬ w.Visits (depth + 1) (q.task c) visit := by
  rintro ⟨request, v, hcalled, hvisit⟩
  rw [q.journal_task, Call.journal, Call.body_journal, h] at hcalled
  obtain ⟨rfl, rfl⟩ := Moment.called.inj (List.mem_singleton.mp hcalled)
  rw [h] at hvisit
  cases hvisit

/-- A top-level request without parameters fails, runs no definition and changes nothing but reports. -/
theorem Query.run_bare (hkind : stored.binding.kind = .multi) (h : w.found? q.key c = some stored)
    (hps : q.parameters = []) (depth : Nat) :
    (∃ w', w.run (depth + 1) (q.task c) = .ok (.error (.missingParameters stored.binding.key), w') ∧
      w.entered.Coincides w') ∧ ∀ visit, ¬ w.Visits (depth + 1) (q.task c) visit := by
  have hobtains := q.call_obtains h
  rw [hps] at hobtains
  obtain ⟨hnone, w', hanswer, hw'⟩ := hobtains.bare hkind depth
  refine ⟨⟨w', ?_, hw'⟩, Query.not_visits hnone depth⟩
  rw [q.run_eq, hanswer]
  rfl

namespace World.Tabulates

variable (h : w.Tabulates stored journal)
include h

/-- The value for a list is kept if an attempt to make it has succeeded, and only then. -/
theorem ready_iff {fingerprint : UInt64} {object : Object V} : w.cells (stored.place fingerprint) = .ready object ↔
    .ended (stored.place fingerprint) (.ready object) ∈ journal := (h.turns fingerprint).ready_iff (by simp)

/-- What has been run for the binding was asked for by a call, with a list that is not empty. -/
theorem visit_obtains (hkind : stored.binding.kind = .multi) {request : Call V} {v : World V E} {visit : Visit V E}
    (hcalled : .called request v ∈ journal) (hvisit : request.visit? v = some visit) (hsame : visit.stored = stored) :
    request.Obtains stored v visit.context.parameters ∧ visit.context.parameters ≠ [] := by
  have hobtains := Call.Obtains.of_visit (h.among hcalled).1.binding hvisit hsame
  refine ⟨hobtains, fun hbare => ?_⟩
  rw [hbare] at hobtains
  rw [(hobtains.bare hkind 0).1] at hvisit
  cases hvisit

/-- For one fingerprint all calls are given what is kept for it. -/
theorem brought_eq {request request' : Call V} {v v' : World V E} {object object' : Object V} {ps qs : Parameters V}
    (hcalled : .called request v ∈ journal) (hcalled' : .called request' v' ∈ journal)
    (hbrings : request.Brings v stored ps object) (hbrings' : request'.Brings v' stored qs object')
    (hhash : ps.hashKey = qs.hashKey) : object = object' := by
  have hkept := h.given hcalled hbrings
  rw [hhash, h.given hcalled' hbrings'] at hkept
  exact (Cell.ready.inj hkept).symm

/-- Whatever a call of the journal comes to, it keeps what is kept, and makes nothing but what calls within it bring. -/
theorem call_keeps (hmakes : ∀ context, (stored.binding.definition context).MakesLast) {request : Call V}
    {v v' : World V E} {reply : Reply V} (hcalled : .called request v ∈ journal)
    (hanswer : Call.answer depth request v = .ok (reply, v')) {fingerprint : UInt64} {object : Object V} :
    (v.cells (stored.place fingerprint) = .ready object → v'.cells (stored.place fingerprint) = .ready object) ∧
      (v'.cells (stored.place fingerprint) = .ready object → v.cells (stored.place fingerprint) = .ready object ∨
        ∃ request' u qs, .called request' u ∈ Call.journal depth request v ∧
          request'.Brings u stored qs object ∧ qs.hashKey = fingerprint) := by
  obtain ⟨hv, making, hmaking⟩ := h.among hcalled
  have hturns := ((Call.unwinding Conduct.lawful_lax Conduct.engages_lax depth trivial trivial hmaking).of_ok
    hanswer).2.2 (stored.place fingerprint)
  have hstays {other : Object V} (hready : v.cells (stored.place fingerprint) = .ready other) :
      v'.cells (stored.place fingerprint) = .ready other := by
    rw [hready] at hturns
    exact hturns.of_ready.1
  refine ⟨hstays, fun hready => or_iff_not_imp_left.mpr fun hbefore => ?_⟩
  refine Call.exists_brings hmakes hv ((hturns.ready_iff fun other hother => ?_).mp hready)
  obtain rfl := Cell.ready.inj ((hstays hother).symm.trans hready)
  exact hbefore hother

/-- Nothing is kept for a list that no call has been given an object for. -/
theorem empty_of_ungiven {fingerprint : UInt64} (hungiven : ∀ {request v object} {ps : Parameters V},
    .called request v ∈ journal → request.Brings v stored ps object → ps.hashKey ≠ fingerprint) :
    w.cells (stored.place fingerprint) = .empty := by
  cases hcell : w.cells (stored.place fingerprint) with
  | empty => rfl
  | creating creator => exact absurd hcell (h.idle _ _)
  | ready object =>
    obtain ⟨request, v, ps, hcalled, hbrings, hfingerprint⟩ := h.made (h.ready_iff.mp hcell)
    exact absurd hfingerprint (hungiven hcalled hbrings)

/-- A definition that is run for the binding makes the value that is kept for its list. -/
theorem slot?_eq (hkind : stored.binding.kind = .multi) {visit : Visit V E} (hsame : visit.stored = stored) :
    visit.stored.slot? visit.context = some (stored.place visit.context.parameters.hashKey) := by
  subst hsame
  exact Stored.slot?_of_multi hkind _

end World.Tabulates

/-- A multi binding keeps one object for every list of parameters that it is asked with, whatever is requested and
however often it fails. -/
theorem World.Elapsed.one_per_list (hkind : stored.binding.kind = .multi)
    (hdefinition : stored.binding.definition.FromProvider) (h : World.Elapsed stored w journal) :
    w.OnePerList stored journal := by
  have hmakes := hdefinition.makesLast
  have htable := h.tabulates hkind hmakes
  refine ⟨?_, fun hfound hrun => ?_, ?_, ?_, ?_, htable.visit_obtains hkind, ?_, ?_, ?_, ?_, fun hobtains => ?_,
    fun hfound hps depth => Query.run_bare hkind hfound hps depth⟩
  · refine World.found?_of_serving? ?_
    rw [World.serving?_eq, htable.distinguishes.binding]
    split <;> rfl
  · obtain ⟨given, hanswer, haccept⟩ := Query.answer_of_run hrun
    exact ⟨Query.called_mem hrun, Query.call_obtains hfound, _, _, Query.eq_of_accept haccept ▸ hanswer⟩
  · intro request request' v v' object object' ps qs hcalled hcalled' hbrings hbrings' hcollision
    have hkept := htable.given hcalled hbrings
    have hkept' := htable.given hcalled' hbrings'
    refine ⟨fun hnumber => hcollision (htable.distinguishes.distinct hkept hkept' hnumber), fun hsame => ?_⟩
    exact congrArg Object.number (htable.brought_eq hcalled hcalled' hbrings hbrings' hsame.hashKey_eq)
  · intro request request' v v' object object' ps qs
    exact htable.brought_eq
  · intro fingerprint object
    refine ⟨fun hready => htable.made (htable.ready_iff.mp hready), ?_⟩
    rintro ⟨request, v, ps, hcalled, hbrings, rfl⟩
    exact htable.given hcalled hbrings
  · intro request v visit depth object made hcalled hvisit hsame hrun
    obtain ⟨v', hanswer⟩ := Call.body_run hvisit (hsame ▸ hrun)
    have hobtains := (htable.visit_obtains hkind hcalled hvisit hsame).1
    exact htable.ready_iff.mp (htable.given hcalled ⟨hobtains, depth + 1, v', hanswer⟩)
  · rintro fingerprint object before after rfl
    have hquiet := (htable.turns fingerprint).quiet_after
    refine ⟨hquiet, fun hcalled hvisit hsame hfingerprint => ?_⟩
    have hprompt : Moment.Prompt after := htable.prompt.right
    have hbegun := hprompt.begun_mem hcalled hvisit (htable.slot?_eq hkind hsame)
    exact hquiet _ hbegun (hfingerprint ▸ rfl)
  · intro request v depth e v' ps hcalled hobtains hanswer
    obtain ⟨hown, hempty⟩ := hobtains.place_of_error hkind hanswer
    exact ⟨hown, fun hps object => hown ▸ hempty hps object,
      fun _ _ => (htable.call_keeps hmakes hcalled hanswer).1, fun _ _ => (htable.call_keeps hmakes hcalled hanswer).2⟩
  · intro q c hfound hps hungiven depth
    have hempty {slot : Slot} (hslot : stored.slot? (q.context c w stored) = some slot) : w.cells slot = .empty := by
      simp only [Stored.slot?, hkind, Option.some.injEq] at hslot
      exact hslot ▸ htable.empty_of_ungiven hungiven
    obtain ⟨v, hvisit, -⟩ := Query.exists_visit hfound (fun _ => hps) fun _ => hempty
    exact ⟨v, _, _, World.journal_of_visit hvisit depth ▸ List.mem_cons_self, hvisit⟩
  · exact ⟨(hobtains.bare hkind 0).1, fun depth => (hobtains.bare hkind depth).2⟩

end Main

/-! ### A value that is made to measure -/

/-- A multi binding whose provider function fails when it is called for the first time. -/
def Stored.bespoke : Stored Unit Bool :=
  ⟨0, .ofProvider (.nth 0) .multi .params fun _ => do
    let tried ← Action.touch fun _ => true
    return if tried then .ok () else .error "not yet"⟩

/-- A component that stores this binding, and a child of it. -/
def World.bespoke : World Unit Bool :=
  { World.initial false with
    components := [⟨[], [], [Stored.bespoke.binding], .default, true⟩, ⟨[], [0], [], .default, true⟩] }

/-- The list of one parameter, of the given type. -/
def Parameters.nth (n : UInt64) : Parameters Unit := [⟨.nth n, ()⟩]

/-- What fails for a list at first is made for it at the second attempt, and given again at the component's parent.
For another list there is another object, and for none an error. -/
theorem World.Elapsed.one_per_list_bespoke :
    ∃ (w₁ w₂ w₃ w₄ w₅ : World Unit Bool) (e : ResolveError) (object other : Object Unit)
      (journal : List (Moment Unit Bool)),
      World.bespoke.run 2 ((Query.get (.nth 0) (.nth 1)).task 1) = .ok (.error e, w₁) ∧
        w₁.run 2 ((Query.get (.nth 0) (.nth 1)).task 1) = .ok (.ok (some object), w₂) ∧
          w₂.run 2 ((Query.get (.nth 0) (.nth 2)).task 1) = .ok (.ok (some other), w₃) ∧
            w₃.run 2 ((Query.get (.nth 0) (.nth 1)).task 0) = .ok (.ok (some object), w₄) ∧
              w₄.run 2 ((Query.get (.nth 0) []).task 0) = .ok (.error (.missingParameters (.of (.nth 0))), w₅) ∧
                Parameters.hashKey (.nth 1) ≠ Parameters.hashKey (.nth 2) ∧ object.number ≠ other.number ∧
                  w₅.OnePerList .bespoke journal := by
  obtain ⟨w₁, w₂, w₃, w₄, w₅, e, object, other, hfails, hmakes, hdiffers, hagain, hbare, hhash, hnumber⟩ :
      ∃ (w₁ w₂ w₃ w₄ w₅ : World Unit Bool) (e : ResolveError) (object other : Object Unit),
        World.bespoke.run 2 ((Query.get (.nth 0) (.nth 1)).task 1) = .ok (.error e, w₁) ∧
          w₁.run 2 ((Query.get (.nth 0) (.nth 1)).task 1) = .ok (.ok (some object), w₂) ∧
            w₂.run 2 ((Query.get (.nth 0) (.nth 2)).task 1) = .ok (.ok (some other), w₃) ∧
              w₃.run 2 ((Query.get (.nth 0) (.nth 1)).task 0) = .ok (.ok (some object), w₄) ∧
                w₄.run 2 ((Query.get (.nth 0) []).task 0) = .ok (.error (.missingParameters (.of (.nth 0))), w₅) ∧
                  Parameters.hashKey (.nth 1) ≠ Parameters.hashKey (.nth 2) ∧ object.number ≠ other.number :=
    ⟨_, _, _, _, _, _, _, _, rfl, rfl, rfl, rfl, rfl, by decide, by decide⟩
  have hdefinition : Stored.bespoke.binding.definition.FromProvider :=
    .ofProvider _ Dependency.Standard.params.makesLast fun _ _ hnext _ => hnext _
  have hstart : World.Elapsed Stored.bespoke World.bespoke [] := .start rfl nofun fun _ => rfl
  have helapsed := ((((hstart.requested hfails).requested hmakes).requested hdiffers).requested hagain).requested hbare
  exact ⟨w₁, w₂, w₃, w₄, w₅, e, object, other, _, hfails, hmakes, hdiffers, hagain, hbare, hhash, hnumber,
    one_per_list rfl hdefinition helapsed⟩

end Injection

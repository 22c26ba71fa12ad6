import Injection.Proofs.Inquiry
import Injection.Proofs.Realm

/-!
# Bindings stay

What a component stores under a key it stores for good: requests only add to it, whatever definitions and
factories do, and so do the other things that happen to components. A journal tells of calls in the order they
are taken up, so a call that comes later finds at least what was stored before, and what an earlier call stored
to have its own key served.
-/

namespace Injection

variable {V E α β : Type}

/-- Whatever a component stores under a key, it goes on storing. -/
def World.Accrues (w w' : World V E) : Prop :=
  ∀ ⦃c key binding⦄, w.binding? c key = some binding → w'.binding? c key = some binding

namespace World

variable {w w' w'' : World V E} {c : ComponentId}

/-- Nothing is lost where nothing happens. -/
theorem Accrues.refl (w : World V E) : w.Accrues w := fun _ _ _ => id

/-- What is still stored later, and again after that, is still stored in the end. -/
theorem Accrues.trans (h : w.Accrues w') (h' : w'.Accrues w'') : w.Accrues w'' :=
  fun _ _ _ hbinding => h' (h hbinding)

/-- Nothing is lost where the components stay as they are. -/
theorem Accrues.of_components (h : w'.components = w.components) : w.Accrues w' :=
  fun _ _ _ hbinding => (binding?_of_components h _).trans hbinding

/-- Storing another binding takes none away. -/
theorem accrues_memoize (w : World V E) (c : ComponentId) (binding : Binding V E) :
    w.Accrues (w.memoize c binding) := by
  intro d key stored hstored
  obtain ⟨component, hcomponent, hfound⟩ := Option.bind_eq_some_iff.mp hstored
  unfold World.binding?
  rw [component?_memoize, hcomponent]
  simp only [Option.map_some, Option.bind_some]
  split
  · unfold Component.binding? at hfound ⊢
    rw [List.find?_append, hfound]
    rfl
  · exact hfound

/-- A component that is dropped keeps what it stores. -/
theorem accrues_drop (w : World V E) (c : ComponentId) : w.Accrues (w.drop c) := by
  intro d key stored hstored
  rwa [binding?_eq_find?, bindings_drop, ← binding?_eq_find?]

/-- A component that is built takes nothing away from the others. -/
theorem accrues_build {b : ComponentBuilder V E} (h : w.build b = .ok (c, w')) : w.Accrues w' := by
  obtain ⟨m, -, rfl⟩ := build_eq_ok h
  intro d key stored hstored
  obtain ⟨component, hcomponent, hfound⟩ := Option.bind_eq_some_iff.mp hstored
  have hlt : d < w.components.length := (List.getElem?_eq_some_iff.mp hcomponent).1
  unfold World.binding?
  rw [component?_addComponent, if_neg (Nat.ne_of_lt hlt), hcomponent]
  exact hfound

/-- The number of components stays the same when a binding is stored. -/
theorem length_memoize (w : World V E) (c : ComponentId) (binding : Binding V E) :
    (w.memoize c binding).components.length = w.components.length := by
  unfold memoize
  split
  · rfl
  · exact List.length_modify _ _ _

end World

/-- What a task that follows a conduct may do at once takes no binding away. -/
theorem Conduct.Unnoticed.accrues {C : Conduct V E} {w w' : World V E} (h : C.Unnoticed w w') : w.Accrues w' := by
  rcases h.stored with hsame | ⟨c, binding, -, hstored⟩
  · exact .of_components hsame
  · exact (w.accrues_memoize c binding).trans (.of_components hstored)

/-! ### What is located is stored -/

section Locating

variable {resolution : Resolution} {key : Key} {c : ComponentId} {w w' u : World V E}

/-- What a conduct says of the components it says of them after a factory has replied. -/
theorem Factory.Replies.holds {C : Conduct V E} (hC : C.Stable) {factory : Factory V E}
    {reply : SynthesisReply V E} (hsupplies : (factory key c).Supplies C key c)
    (h : factory.Replies resolution key c w reply u) (hw : C.holds w.components) : C.holds u.components := by
  have hguards : C.Guards fun _ _ => .error .tooDeep := by
    intro making request w reply w' _ _ hanswer
    cases hanswer
  have hyields : (Resolution.synthesis resolution (factory key c)).Yields C _ [] :=
    Resolution.synthesis_yields hC hsupplies
  exact hyields.run hguards hw (h _)

/-- A component that factories are asked for is there, and stays there while they are asked. -/
theorem Inquiry.exists_component {factories asked : List (Factory V E)} {reply : SynthesisReply V E}
    (h : Inquiry resolution key c factories w asked reply u) (hc : ∃ component, w.component? c = some component) :
    ∃ component, u.component? c = some component := by
  have hstable : (Conduct.free (fun components => c < components.length) fun _ _ => True : Conduct V E).Stable := by
    refine ⟨fun _ _ _ => trivial, fun {v d binding} hv _ => ?_⟩
    change c < (v.memoize d binding).components.length
    rwa [World.length_memoize]
  have hlength {v : World V E} : (∃ component, v.component? c = some component) ↔ c < v.components.length := by
    unfold World.component?
    constructor
    · rintro ⟨component, hcomponent⟩
      exact (List.getElem?_eq_some_iff.mp hcomponent).1
    · exact fun hlt => ⟨_, List.getElem?_eq_getElem hlt⟩
  refine h.preserves (P := fun v => ∃ component, v.component? c = some component) (fun factory _ => ?_) hc
  intro v v' reply hreplies hv
  exact hlength.mpr (hreplies.holds hstable (Synthesis.supplies_lax _ _ _) (hlength.mp hv))

/-- A binding that was stored, or was there already, is the one under its key. -/
theorem World.binding?_memoize_getD {component : Component V E} (hc : w.component? c = some component)
    (binding : Binding V E) : (w.memoize c binding).binding? c binding.key.identity =
      some ((w.binding? c binding.key.identity).getD binding) := by
  cases hbefore : w.binding? c binding.key.identity with
  | none => exact binding?_memoize hc hbefore
  | some stored => exact w.accrues_memoize c binding hbefore

/-- What a key is located at is stored for the key's site, and not under a nullable key if the key is required. -/
theorem Resolution.Locates.stored {asked : List (Factory V E)} {stored : Stored V E}
    (h : Locates resolution key c w asked (.ok (some stored)) w') :
    w'.binding? stored.owner stored.binding.key.identity = some stored.binding ∧
      stored.binding.key.site = key.site ∧ (key.nullable = false → stored.binding.key.nullable = false) := by
  generalize hlocated : (.ok (some stored) : Except ResolveError (Option (Stored V E))) = located at h
  cases h with
  | found hfound hw' =>
    obtain rfl := Option.some.inj (Except.ok.inj hlocated)
    obtain ⟨-, hserving⟩ := World.found?_above (.refl w) hfound
    have hlater := World.Accrues.of_components hw'.components
    rcases World.serving?_eq_some hserving with hbinding | hbinding <;>
      obtain ⟨-, -, -, hkey⟩ := World.mem_of_binding? hbinding
    · exact ⟨hkey ▸ hlater hbinding, congrArg KeyId.site hkey, fun hrequired => (congrArg KeyId.nullable hkey).trans hrequired⟩
    · exact ⟨hkey ▸ hlater hbinding, congrArg KeyId.site hkey, fun _ => congrArg KeyId.nullable hkey⟩
  | @inquired _ reply u _ hfound hinquiry hw' =>
    match reply, hinquiry, hw', hlocated with
    | .ok (some binding), hinquiry, hw', hlocated =>
      obtain rfl := Option.some.inj (Except.ok.inj hlocated)
      obtain ⟨factory, hfactory⟩ := hinquiry.exists_factory (by simp)
      obtain ⟨component, hcomponent⟩ := hinquiry.exists_component
        (World.exists_component_of_factory (List.mem_reverse.mp hfactory))
      have hmemoized := World.binding?_memoize_getD hcomponent (binding.withKey key.required)
      have hbinding := World.Accrues.of_components hw'.components hmemoized
      obtain ⟨-, -, -, hkey⟩ := World.mem_of_binding? hbinding
      refine ⟨?_, congrArg KeyId.site hkey, fun _ => congrArg KeyId.nullable hkey⟩
      exact (congrArg (w'.binding? c) hkey).trans hbinding

/-- What was stored before, a key is located at only by finding it. -/
theorem Resolution.Locates.found_of_stored {asked : List (Factory V E)} {stored : Stored V E}
    (h : Locates resolution key c w asked (.ok (some stored)) w')
    (hstored : w.binding? stored.owner stored.binding.key.identity = some stored.binding) :
    w.found? key c = some stored := by
  generalize hlocated : (.ok (some stored) : Except ResolveError (Option (Stored V E))) = located at h
  cases h with
  | found hfound _ => exact hfound.trans (congrArg some (Option.some.inj (Except.ok.inj hlocated)).symm)
  | @inquired _ reply u _ hnone hinquiry _ =>
    match reply, hlocated with
    | .ok (some binding), hlocated =>
      obtain rfl := Option.some.inj (Except.ok.inj hlocated)
      have hidentity : ((u.binding? c key.required.identity).getD (binding.withKey key.required)).key.identity =
          key.required.identity := by
        cases hbinding : u.binding? c key.required.identity with
        | none => rfl
        | some other => exact (World.mem_of_binding? hbinding).choose_spec.2.2
      rw [hidentity, World.binding?_required (World.serving?_eq_none hnone)] at hstored
      cases hstored

end Locating

/-! ### In the order of a journal -/

/-- What a journal tells comes one after the other, from a world to a later one. Every call is taken up in a world
that stores what was stored before, and so is whatever comes after its look-up. -/
inductive World.Ensues [Hashed V] : World V E → List (Moment V E) → World V E → Prop
  | nil {w w' : World V E} : w.Accrues w' → Ensues w [] w'
  | made {w w' : World V E} {moment : Moment V E} {journal : List (Moment V E)} :
      (∀ request v, moment ≠ .called request v) → Ensues w journal w' → Ensues w (moment :: journal) w'
  | called {w v w' : World V E} {request : Call V} {journal : List (Moment V E)} :
      w.Accrues v → v.Accrues (request.located v) → Ensues (request.located v) journal w' →
        Ensues w (.called request v :: journal) w'

namespace World.Ensues

variable [Hashed V] {w w' w'' v : World V E} {journal journal' before after : List (Moment V E)} {request : Call V}

/-- What is stored at the beginning of a journal is still stored at its end. -/
theorem accrues (h : w.Ensues journal w') : w.Accrues w' := by
  induction h with
  | nil hw => exact hw
  | made _ _ ih => exact ih
  | called hw hv _ ih => exact (hw.trans hv).trans ih

/-- What comes later comes after what was stored before. -/
theorem of_accrues (hw : w.Accrues w') (h : w'.Ensues journal w'') : w.Ensues journal w'' := by
  induction h with
  | nil hw' => exact .nil (hw.trans hw')
  | made hmoment _ ih => exact .made hmoment (ih hw)
  | called hw' hv hrest _ => exact .called (hw.trans hw') hv hrest

/-- Journals that follow one another make up one. -/
theorem append (h : w.Ensues journal w') (h' : w'.Ensues journal' w'') : w.Ensues (journal ++ journal') w'' := by
  induction h with
  | nil hw => exact h'.of_accrues hw
  | made hmoment _ ih => exact .made hmoment (ih h')
  | called hw hv _ ih => exact .called hw hv (ih h')

/-- What comes after a call comes after its look-up. -/
theorem after_called (h : w.Ensues (before ++ .called request v :: after) w') :
    w.Accrues v ∧ (request.located v).Ensues after w' := by
  induction before generalizing w with
  | nil =>
    cases h with
    | made hmoment _ => exact absurd rfl (hmoment request v)
    | called hw _ hrest => exact ⟨hw, hrest⟩
  | cons moment rest ih =>
    cases h with
    | made _ hrest => exact ih hrest
    | called hw hv hrest =>
      obtain ⟨hlater, hafter⟩ := ih hrest
      exact ⟨(hw.trans hv).trans hlater, hafter⟩

/-- Every call is taken up in a world that stores what was stored before. -/
theorem of_called (h : w.Ensues journal w') (hcalled : .called request v ∈ journal) : w.Accrues v := by
  obtain ⟨before, after, rfl⟩ := List.append_of_mem hcalled
  exact h.after_called.1

end World.Ensues

section Runs

variable [Hashed V] {answer : Call V → World V E → Run V E (Reply V)}
  {record : Call V → World V E → List (Moment V E)} {w : World V E}

/-- Whether a run ends or halts, its journal is in order. -/
def Run.InOrder (run : Run V E α) (w : World V E) (journal : List (Moment V E)) : Prop :=
  run.Meets (fun _ => ∃ w', w.Ensues journal w') fun _ w' => w.Ensues journal w'

/-- Some world comes after the journal of a run, whether the run has ended or has halted. -/
theorem Run.InOrder.exists_ensues {run : Run V E α} {journal : List (Moment V E)} (h : run.InOrder w journal) :
    ∃ w', w.Ensues journal w' := by
  cases run with
  | error halt => exact h
  | ok pair => exact ⟨pair.2, h⟩

/-- What happens first comes before how a run goes on. -/
theorem Run.InOrder.after {run : Run V E α} {between : World V E} {journal : List (Moment V E)}
    (h : run.InOrder between journal) {first : List (Moment V E)} (hfirst : w.Ensues first between) :
    run.InOrder w (first ++ journal) :=
  Run.Meets.mono h (fun _ ⟨w', hw'⟩ => ⟨w', hfirst.append hw'⟩) fun _ _ hw' => hfirst.append hw'

/-- A task has its journal in order if its calls do, whatever conduct it follows. -/
theorem Task.Follows.inOrder {C : Conduct V E} (hmoves : ∀ w : World V E, C.holds w.components)
    (hanswer : ∀ request v, (answer request v).InOrder v (record request v)) {ends : α → List Slot → Prop}
    {task : Task V E α} {making : List Slot} (h : task.Follows C ends making) (w : World V E) :
    (task.run answer w).InOrder w (task.journal answer record w) := by
  induction task generalizing making w with
  | done result => exact .nil (.refl w)
  | act change next ih =>
    obtain ⟨hchange, hnext⟩ := h w (hmoves w)
    exact (ih w hnext (change w)).after (.nil hchange.accrues)
  | acquire slot resolution next ih =>
    obtain ⟨-, hready, hcycle, hgranted⟩ := h
    unfold Task.run Task.journal
    cases w.cells slot with
    | ready object => exact ih _ (hready object) w
    | creating creator =>
      dsimp only
      split
      · exact ih _ hcycle w
      · exact ⟨w, .nil (.refl w)⟩
    | empty =>
      have hfirst : w.Ensues [.begun slot] (w.setCell slot (.creating resolution.number)) :=
        .made (by simp) (.nil (.of_components rfl))
      exact (ih _ hgranted _).after hfirst
  | settle slot cell next ih =>
    obtain ⟨-, -, rest, rfl, hnext⟩ := h
    have hfirst : w.Ensues [.ended slot cell] (w.setCell slot cell) :=
      .made (by simp) (.nil (.of_components rfl))
    exact (ih hnext _).after hfirst
  | notify slot next ih => exact ih h w
  | call request next ih =>
    obtain ⟨-, hnext⟩ := h
    have hcall := hanswer request w
    unfold Task.run Task.journal
    cases hreply : answer request w with
    | error halt => simpa [hreply, Run.InOrder, Run.Meets] using hcall.exists_ensues
    | ok pair =>
      rw [hreply] at hcall
      exact (ih pair.1 (hnext _) pair.2).after hcall
  | meet gate next ih => exact ih h w

/-- A task that follows the rules and only changes the world takes no binding away. -/
theorem Task.Yields.accrues {P : α → Prop} {task : Task V E α} (h : task.Yields .lax P []) {w' : World V E}
    {result : α} (hrun : task.run answer w = .ok (result, w')) (hacts : task.Acts) : w.Accrues w' := by
  obtain ⟨result', u, halways⟩ := hacts.exists_run w
  obtain ⟨-, rfl⟩ := Prod.mk.inj (Except.ok.inj (hrun.symm.trans (halways answer)))
  have hhalts (request : Call V) (v : World V E) : Run.InOrder (.error .tooDeep : Run V E (Reply V)) v [] :=
    ⟨v, .nil (.refl v)⟩
  have horder := Task.Follows.inOrder (fun _ => trivial) hhalts h w
  rw [halways] at horder
  exact horder.accrues

/-- What a key is concluded with follows the rules. -/
theorem Resolution.conclude_keeps (path : List Key) (resolution : Resolution) (key : Key) (parameters : Parameters V)
    (located : Except ResolveError (Option (Stored V E))) :
    (conclude path resolution key parameters located).Keeps .lax [] := by
  match located with
  | .error e => exact Task.fail_yields _ _ trivial
  | .ok none =>
    unfold conclude
    dsimp only
    split
    · exact (Task.emit_keeps _ _).bind fun _ _ => .done trivial
    · exact Task.fail_yields _ _ trivial
  | .ok (some stored) =>
    refine (Stored.obtain_keeps (Stored.admitted_free _ _ _)).bind fun result _ => ?_
    cases result with
    | ok object => exact .done trivial
    | error e => exact Task.fail_yields _ _ trivial

/-- A call has its journal in order, however deep calls are nested within it. -/
theorem Call.inOrder (depth : Nat) (request : Call V) (w : World V E) :
    (Call.answer depth request w).InOrder w (Call.journal depth request w) := by
  induction depth generalizing request w with
  | zero => exact ⟨w, .nil (.refl w)⟩
  | succ depth ih =>
    have hcalled {task : Task V E (Reply V)} (hkeeps : task.Keeps .lax []) {u : World V E}
        (hlocated : request.located w = u) (hw : w.Accrues u) :
        (task.run (Call.answer depth) u).InOrder w
          (.called request w :: task.journal (Call.answer depth) (Call.journal depth) u) := by
      subst hlocated
      have hfirst : w.Ensues [.called request w] (request.located w) := .called (.refl w) hw (.nil (.refl _))
      exact (Task.Follows.inOrder (C := .lax) (fun _ => trivial) ih hkeeps _).after hfirst
    have hbody (hsame : request.located w = w) : (Call.answer (depth + 1) request w).InOrder w
        (Call.journal (depth + 1) request w) :=
      hcalled (Call.body_keeps Conduct.lawful_lax trivial) hsame (.refl w)
    cases request with
    | obtain owner key context => exact hbody rfl
    | resolve c path resolution key parameters =>
      by_cases hfresh : ∀ visited ∈ path, visited.site ≠ key.site
      · obtain ⟨located, u, hlocate⟩ := (Resolution.locate_acts (V := V) (E := E) resolution key c).exists_run
          (w.emit resolution.logger (.lookup key))
        rw [Call.answer_resolve hfresh hlocate, Call.journal_resolve hfresh hlocate]
        refine hcalled (Resolution.conclude_keeps _ _ _ _ _) (Call.located_resolve hfresh hlocate) ?_
        exact (World.Accrues.of_components (World.emit_components _ _ _)).trans
          ((Resolution.locate_yields Conduct.lawful_lax c).accrues (hlocate (Call.answer 0))
            (Resolution.locate_acts resolution key c))
      · refine hbody ?_
        have hany : path.any fun visited => visited.site = key.site := by simpa using hfresh
        simp only [Call.located, if_pos hany]

/-- The binding of a definition that is run is stored, together with what was stored when the call was made. -/
theorem Call.visit?_stored {request : Call V} {v : World V E} {visit : Visit V E}
    (h : request.visit? v = some visit) : v.Accrues visit.world ∧
      visit.world.binding? visit.stored.owner visit.stored.binding.key.identity = some visit.stored.binding := by
  cases Visit.answers_of_visit? h with
  | @located c path resolution key parameters found _ hlocate _ hcomponents =>
    obtain ⟨asked, hlocates⟩ := Resolution.Locates.of_run hlocate
    have hasked := World.Accrues.of_components (v.emit_components resolution.logger (.lookup key))
    have hlocated := (Resolution.locate_yields Conduct.lawful_lax c).accrues hlocate
      (Resolution.locate_acts resolution key c)
    have hvisited := World.Accrues.of_components hcomponents
    exact ⟨(hasked.trans hlocated).trans hvisited, hvisited hlocates.stored.1⟩
  | named hbinding hstored _ hcomponents =>
    have hvisited := World.Accrues.of_components hcomponents
    obtain ⟨-, -, -, hkey⟩ := World.mem_of_binding? hbinding
    rw [hstored]
    exact ⟨hvisited, hvisited (hkey ▸ hbinding)⟩

/-- A top-level request has its journal in order. -/
theorem Query.inOrder (q : Query V) (c : ComponentId) (depth : Nat) (w : World V E) :
    (w.run depth (q.task c)).InOrder w (w.journal depth (q.task c)) := by
  have hentered : w.Ensues [] w.entered := .nil (.of_components rfl)
  have hcall : (Call.answer depth (q.call c w) w.entered).InOrder w (Call.journal depth (q.call c w) w.entered) :=
    (Call.inOrder depth (q.call c w) w.entered).after hentered
  rw [q.journal_task]
  exact Task.meets_bind (Task.meets_call hcall fun _ _ h => h) fun _ _ h => h

end Runs

/-! ### The course of events -/

/-- The course of events from a world on, as a journal tells it, and the world that it leads to. Top-level requests
are made, components are built and dropped, somebody runs the program of a factory, and anything may happen outside
of the container. A request that does not come to an end leaves no world for anything to happen in. -/
inductive World.Course [Hashed V] (start : World V E) : List (Moment V E) → Option (World V E) → Prop
  | nothing : Course start [] (some start)
  | requested {w : World V E} {journal : List (Moment V E)} (q : Query V) (c : ComponentId) (depth : Nat) :
      Course start journal (some w) →
        Course start (journal ++ w.journal depth (q.task c)) ((w.run depth (q.task c)).toOption.map Prod.snd)
  | built {w w' : World V E} {journal : List (Moment V E)} {b : ComponentBuilder V E} {c : ComponentId} :
      Course start journal (some w) → w.build b = .ok (c, w') → Course start journal (some w')
  | dropped {w : World V E} {journal : List (Moment V E)} (c : ComponentId) :
      Course start journal (some w) → Course start journal (some (w.drop c))
  | consulted {w w' : World V E} {journal : List (Moment V E)} {resolution : Resolution}
      {program : Synthesis V E} {reply : SynthesisReply V E} : Course start journal (some w) →
        w.run 0 (Resolution.synthesis resolution program) = .ok (reply, w') → Course start journal (some w')
  | moved {w w' : World V E} {journal : List (Moment V E)} :
      Course start journal (some w) → w'.components = w.components → Course start journal (some w')

namespace World.Course

variable [Hashed V] {start w : World V E} {journal before after : List (Moment V E)} {last : Option (World V E)}

/-- A request that comes to an end leaves a world for more to happen in. -/
theorem answered (h : start.Course journal (some w)) {q : Query V} {c : ComponentId} {depth : Nat} {reply : Reply V}
    {w' : World V E} (hrun : w.run depth (q.task c) = .ok (reply, w')) :
    start.Course (journal ++ w.journal depth (q.task c)) (some w') := by
  have hcourse := h.requested q c depth
  rwa [hrun] at hcourse

/-- Whatever happens, it happens in order. -/
theorem ensues (h : start.Course journal last) :
    (∃ w, start.Ensues journal w) ∧ ∀ w ∈ last, start.Ensues journal w := by
  have hsome {w : World V E} {journal : List (Moment V E)} (hw : start.Ensues journal w) :
      (∃ w, start.Ensues journal w) ∧ ∀ w' ∈ some w, start.Ensues journal w' :=
    ⟨⟨w, hw⟩, fun w' hw' => Option.mem_some_iff.mp hw' ▸ hw⟩
  have hthen {w w' : World V E} {journal : List (Moment V E)}
      (hbefore : (∃ w, start.Ensues journal w) ∧ ∀ w' ∈ some w, start.Ensues journal w') (hw : w.Accrues w') :
      (∃ w, start.Ensues journal w) ∧ ∀ w'' ∈ some w', start.Ensues journal w'' := by
    have hafter := (hbefore.2 w rfl).append (.nil hw)
    rw [List.append_nil] at hafter
    exact hsome hafter
  induction h with
  | nothing => exact hsome (.nil (.refl start))
  | @requested w _ q c depth _ ih =>
    have hrequest := (q.inOrder c depth w).after (ih.2 w rfl)
    cases hrun : w.run depth (q.task c) with
    | error halt => exact ⟨hrequest.exists_ensues, by simp [Except.toOption]⟩
    | ok pair =>
      rw [hrun] at hrequest
      exact hsome hrequest
  | built _ hbuild ih => exact hthen ih (accrues_build hbuild)
  | dropped c _ ih => exact hthen ih (accrues_drop _ c)
  | @consulted w w' _ resolution program _ _ hrun ih =>
    have hsupplies : program.Supplies .lax (.of default) 0 := Synthesis.supplies_lax _ _ _
    have hyields : (Resolution.synthesis resolution program).Yields .lax _ [] :=
      Resolution.synthesis_yields Conduct.lawful_lax.toStable hsupplies
    exact hthen ih (hyields.accrues hrun (Resolution.synthesis_acts program))
  | moved _ hsame ih => exact hthen ih (.of_components hsame)

/-- Whatever comes after a call, and wherever all of it leads, comes after what the call's look-up has stored. -/
theorem after_called {request : Call V} {v : World V E}
    (h : start.Course (before ++ .called request v :: after) last) :
    (∀ {later u}, .called later u ∈ after → (request.located v).Accrues u) ∧
      ∀ w ∈ last, (request.located v).Accrues w := by
  obtain ⟨⟨w, hw⟩, hlast⟩ := h.ensues
  exact ⟨hw.after_called.2.of_called, fun w' hw' => (hlast w' hw').after_called.2.accrues⟩

end World.Course

end Injection

import Injection.Proofs.Journal
import Mathlib.Data.List.Forall2

/-!
# Reports make no difference

What has been reported so far is never looked at. A task that is run in two worlds which differ in nothing
else comes to the same in both, makes the same calls and makes the same values. So whatever is said of a
request in a world holds as well where the request has already reported that it begins.
-/

namespace Injection

variable {V E α β : Type}

/-- The same world, but for what has been reported. -/
def World.Coincides (w w' : World V E) : Prop := ∃ trace, w' = { w with trace }

namespace World

variable {w w' w'' : World V E}

/-- Every world coincides with itself. -/
theorem Coincides.refl (w : World V E) : w.Coincides w := ⟨w.trace, rfl⟩

/-- To coincide goes both ways. -/
theorem Coincides.symm (h : w.Coincides w') : w'.Coincides w := by
  obtain ⟨trace, rfl⟩ := h
  exact ⟨w.trace, rfl⟩

/-- Worlds that coincide with a third coincide. -/
theorem Coincides.trans (h : w.Coincides w') (h' : w'.Coincides w'') : w.Coincides w'' := by
  obtain ⟨trace, rfl⟩ := h
  obtain ⟨trace', rfl⟩ := h'
  exact ⟨trace', rfl⟩

/-- A report makes no difference but to what has been reported. -/
theorem coincides_emit (w : World V E) (logger : Option String) (event : Event) :
    w.Coincides (w.emit logger event) := by
  cases logger with
  | none => exact .refl w
  | some name => exact ⟨w.trace ++ [(name, event)], rfl⟩

/-- Worlds that coincide have the same components. -/
theorem Coincides.components (h : w.Coincides w') : w'.components = w.components := by
  obtain ⟨trace, rfl⟩ := h
  rfl

/-- Worlds that coincide have the same cells. -/
theorem Coincides.cells (h : w.Coincides w') : w'.cells = w.cells := by
  obtain ⟨trace, rfl⟩ := h
  rfl

/-- Worlds that coincide are alike. -/
theorem Coincides.alike (h : w.Coincides w') : w.Alike w' := by
  obtain ⟨trace, rfl⟩ := h
  exact ⟨rfl, rfl, Nat.le_refl _⟩

/-- What is stored does not depend on reports. -/
theorem Coincides.memoize (h : w.Coincides w') (c : ComponentId) (binding : Binding V E) :
    (w.memoize c binding).Coincides (w'.memoize c binding) := by
  obtain ⟨trace, rfl⟩ := h
  refine ⟨trace, ?_⟩
  have hbinding : World.binding? { w with trace } c binding.key.identity = w.binding? c binding.key.identity := rfl
  unfold World.memoize
  rw [hbinding]
  cases w.binding? c binding.key.identity <;> rfl

end World

/-- The task does the same whatever has been reported. -/
def Task.Indifferent : Task V E α → Prop
  | .done _ => True
  | .act change next => ∀ w w', w.Coincides w' →
      (change w).Coincides (change w') ∧ next w' = next w ∧ (next w).Indifferent
  | .acquire _ _ next => ∀ grant, (next grant).Indifferent
  | .settle _ _ next => next.Indifferent
  | .notify _ next => next.Indifferent
  | .call _ next => ∀ reply, (next reply).Indifferent
  | .meet _ next => next.Indifferent

namespace Task

/-- Tasks that do not look at reports can be strung together. -/
theorem Indifferent.bind {task : Task V E α} {f : α → Task V E β} (h : task.Indifferent)
    (hf : ∀ result, (f result).Indifferent) : (task.bind f).Indifferent := by
  induction task with
  | done result => exact hf result
  | act change next ih =>
    intro w w' hw
    obtain ⟨hchange, hnext, hrest⟩ := h w w' hw
    exact ⟨hchange, congrArg (Task.bind · f) hnext, ih w hrest⟩
  | acquire slot resolution next ih => exact fun grant => ih grant (h grant)
  | settle slot cell next ih => exact ih h
  | notify slot next ih => exact ih h
  | call request next ih => exact fun reply => ih reply (h reply)
  | meet gate next ih => exact ih h

/-- Going on with what is read of the world, if that is not the reports. -/
theorem indifferent_read {f : World V E → Task V E α} (hsame : ∀ w trace, f { w with trace } = f w)
    (hf : ∀ w, (f w).Indifferent) : (Task.read >>= f).Indifferent := by
  rintro w w' ⟨trace, rfl⟩
  exact ⟨⟨trace, rfl⟩, hsame w trace, hf w⟩

/-- What is reported does not depend on what was reported before. -/
theorem emit_indifferent (resolution : Resolution) (event : Event) :
    (Task.emit resolution event : Task V E Unit).Indifferent := fun w w' h =>
  ⟨((w.coincides_emit _ _).symm.trans h).trans (w'.coincides_emit _ _), rfl, trivial⟩

/-- Whatever is reported first makes no difference. -/
theorem indifferent_emit {resolution : Resolution} {event : Event} {f : Unit → Task V E α}
    (hf : (f ()).Indifferent) : (Task.emit resolution event >>= f).Indifferent :=
  (emit_indifferent resolution event).bind fun _ => hf

/-- Failing does not depend on reports. -/
theorem fail_indifferent (resolution : Resolution) (error : ResolveError) :
    (Task.fail resolution error : Task V E (Except ResolveError α)).Indifferent := indifferent_emit trivial

/-- Keeping a value does not depend on reports if making it does not. -/
theorem keep_indifferent {slot : Slot} {context : Context V} {create : Task V E (Except ResolveError (Object V))}
    (hcreate : create.Indifferent) : (Task.keep slot context create).Indifferent := by
  intro grant
  cases grant with
  | ready object => exact indifferent_emit trivial
  | cycle => exact fail_indifferent _ _
  | granted =>
    refine indifferent_emit (hcreate.bind fun result => ?_)
    cases result with
    | ok object => exact indifferent_emit trivial
    | error e => trivial

end Task

/-! ### Through the rules of resolution -/

/-- No program can tell what has been reported. -/
theorem Program.toTask_indifferent (context : Context V) (program : Program V E) :
    (program.toTask context).Indifferent := by
  induction program with
  | done outcome => trivial
  | request key parameters next ih => exact fun reply => ih reply
  | start component key parameters next ih =>
    rintro w w' ⟨trace, rfl⟩
    exact ⟨⟨trace, rfl⟩, rfl, fun reply => ih reply⟩
  | forward owner key next ih =>
    rintro w w' ⟨trace, rfl⟩
    refine ⟨⟨trace, rfl⟩, rfl, ?_⟩
    dsimp only
    split
    · exact fun reply => ih _
    · exact ih _
  | share entry body next ihbody ih =>
    have hbody : ((body.toTask context).bind fun outcome =>
        .done (outcome.mapError DefinitionError.toResolveError)).Indifferent := ihbody.bind fun _ => trivial
    exact (Task.keep_indifferent hbody).bind ih
  | make type value next ih =>
    rintro w w' ⟨trace, rfl⟩
    exact ⟨⟨trace, rfl⟩, rfl, ih _⟩
  | touch change next ih =>
    rintro w w' ⟨trace, rfl⟩
    exact ⟨⟨trace, rfl⟩, rfl, ih _⟩
  | report event next ih =>
    exact Task.indifferent_emit (f := fun _ => next.toTask context) ih
  | meet gate next ih => exact ih

namespace Resolution

variable {resolution : Resolution} {key : Key} {c : ComponentId}

/-- Visiting parents does not depend on reports if the visits do not. -/
theorem searchParents_indifferent {visit : ComponentId → Task V E (Option (Stored V E))}
    (hvisit : ∀ parent, (visit parent).Indifferent) (parents : List ComponentId) :
    (searchParents resolution visit parents).Indifferent := by
  induction parents with
  | nil => trivial
  | cons parent rest ih =>
    refine Task.indifferent_read (fun _ _ => rfl) fun w => ?_
    split
    · apply (hvisit parent).bind
      intro found
      cases found with
      | none => exact ih
      | some stored => trivial
    · exact Task.indifferent_emit ih

/-- A search does not depend on reports. -/
theorem search_indifferent : (search resolution key c : Task V E (Option (Stored V E))).Indifferent := by
  unfold search
  generalize c + 1 = generations
  induction generations generalizing c with
  | zero => trivial
  | succ generations ih =>
    refine Task.indifferent_read (fun _ _ => rfl) fun w => ?_
    split
    · exact Task.indifferent_emit trivial
    · exact searchParents_indifferent (fun _ => ih) _

/-- Storing a binding does not depend on reports. -/
theorem memoize_indifferent (binding : Binding V E) : (memoize resolution c binding).Indifferent := by
  rintro w w' ⟨trace, rfl⟩
  refine ⟨World.Coincides.memoize ⟨trace, rfl⟩ c binding, rfl, ?_⟩
  dsimp only
  split <;> exact Task.indifferent_emit trivial

/-- What a catalog gives does not depend on reports. -/
theorem consult_indifferent (catalog : Catalog V E) : (consult resolution catalog key c).Indifferent := by
  unfold consult
  split
  · trivial
  · split
    · trivial
    · split
      · exact Task.indifferent_emit trivial
      · split
        · exact Task.indifferent_emit trivial
        · next scope _ =>
          refine Task.indifferent_read (fun w trace => ?_) fun w => ?_
          · have hgrows : w.Grows { w with trace } := .of_components rfl
            rw [hgrows.scopeOwner?]
            rfl
          · split
            · exact Task.indifferent_emit trivial
            · split
              · trivial
              · exact Task.indifferent_emit ((memoize_indifferent _).bind fun _ => trivial)

/-- What a factory's program comes to does not depend on reports. -/
theorem synthesis_indifferent (program : Synthesis V E) : (synthesis resolution program).Indifferent := by
  induction program with
  | answer reply => trivial
  | consult catalog asked component next ih => exact (consult_indifferent catalog).bind ih
  | touch change next ih =>
    rintro w w' ⟨trace, rfl⟩
    exact ⟨⟨trace, rfl⟩, rfl, ih _⟩

/-- Which factories are asked does not depend on reports. -/
theorem askFactories_indifferent (factories : List (Factory V E)) :
    (askFactories resolution key c factories).Indifferent := by
  induction factories with
  | nil => trivial
  | cons factory rest ih =>
    apply (synthesis_indifferent _).bind
    intro reply
    match reply with
    | .error e => trivial
    | .ok none => exact ih
    | .ok (some binding) => exact Task.indifferent_emit ((memoize_indifferent _).bind fun _ => trivial)

/-- What a key is located at does not depend on reports. -/
theorem locate_indifferent :
    (locate resolution key c : Task V E (Except ResolveError (Option (Stored V E)))).Indifferent := by
  apply search_indifferent.bind
  intro found
  cases found with
  | some stored => trivial
  | none => exact Task.indifferent_read (fun _ _ => rfl) fun _ => askFactories_indifferent _

end Resolution

/-- What is made of a binding does not depend on reports. -/
theorem Stored.create_indifferent (stored : Stored V E) (context : Context V) :
    (stored.create context).Indifferent := (Program.toTask_indifferent _ _).bind fun _ => trivial

/-- Nor does the value that is obtained of it. -/
theorem Stored.obtain_indifferent [Hashed V] (stored : Stored V E) (context : Context V) :
    (stored.obtain context).Indifferent := by
  unfold obtain
  dsimp only
  split
  · exact create_indifferent stored context
  · exact Task.keep_indifferent (create_indifferent stored context)
  · split
    · trivial
    · exact Task.indifferent_emit (Task.keep_indifferent (create_indifferent stored context))

/-- Whatever a call does, it does whatever has been reported. -/
theorem Call.body_indifferent [Hashed V] (request : Call V) :
    (request.body : Task V E (Reply V)).Indifferent := by
  cases request with
  | resolve c path resolution key parameters =>
    refine Task.indifferent_emit ?_
    split
    · exact Task.fail_indifferent _ _
    · apply Resolution.locate_indifferent.bind
      intro reply
      match reply with
      | .error e => exact Task.fail_indifferent _ _
      | .ok none =>
        dsimp only
        split
        · exact Task.indifferent_emit trivial
        · exact Task.fail_indifferent _ _
      | .ok (some stored) =>
        apply (Stored.obtain_indifferent _ _).bind
        intro result
        cases result with
        | ok object => trivial
        | error e => exact Task.fail_indifferent _ _
  | obtain owner key context =>
    refine Task.indifferent_read (fun _ _ => rfl) fun w => ?_
    split
    · trivial
    · apply (Stored.obtain_indifferent _ _).bind
      intro result
      cases result <;> trivial

/-! ### Tasks that only report -/

/-- The task does nothing but report. -/
def Task.OnlyReports : Task V E α → Prop
  | .done _ => True
  | .act change next => ∀ w, w.Coincides (change w) ∧ (next w).OnlyReports
  | _ => False

namespace Task

/-- Two tasks one after the other only report if each of them does. -/
theorem OnlyReports.bind {task : Task V E α} {f : α → Task V E β} (h : task.OnlyReports)
    (hf : ∀ result, (f result).OnlyReports) : (task.bind f).OnlyReports := by
  induction task with
  | done result => exact hf result
  | act change next ih => exact fun w => ⟨(h w).1, ih w (h w).2⟩
  | _ => exact h.elim

/-- A task that only reports ends, in a world that coincides with the one before. -/
theorem OnlyReports.exists_run {task : Task V E α} (h : task.OnlyReports) (w : World V E) :
    ∃ result w', (∀ answer, task.run answer w = .ok (result, w')) ∧ w.Coincides w' := by
  induction task generalizing w with
  | done result => exact ⟨result, w, fun _ => rfl, .refl w⟩
  | act change next ih =>
    obtain ⟨result, w', hrun, hw'⟩ := ih w (h w).2 (change w)
    exact ⟨result, w', hrun, (h w).1.trans hw'⟩
  | _ => exact h.elim

/-- Whoever looks at the world may go on by reporting, whatever is seen. -/
theorem read_onlyReports {f : World V E → Task V E α} (hf : ∀ w, (f w).OnlyReports) :
    (Task.read >>= f).OnlyReports := fun w => ⟨.refl w, hf w⟩

/-- Reporting may go on after a report. -/
theorem emit_onlyReports {resolution : Resolution} {event : Event} {f : Unit → Task V E α}
    (hf : (f ()).OnlyReports) : (Task.emit resolution event >>= f).OnlyReports :=
  fun w => ⟨w.coincides_emit _ _, hf⟩

end Task

/-- A search does nothing but report. -/
theorem Resolution.search_onlyReports (resolution : Resolution) (key : Key) (c : ComponentId) :
    (search resolution key c : Task V E (Option (Stored V E))).OnlyReports := by
  unfold search
  generalize c + 1 = generations
  induction generations generalizing c with
  | zero => trivial
  | succ generations ih =>
    refine Task.read_onlyReports fun w => ?_
    split
    · exact Task.emit_onlyReports trivial
    · induction w.parents c with
      | nil => trivial
      | cons parent rest ihrest =>
        refine Task.read_onlyReports fun w => ?_
        split
        · apply (ih parent).bind
          intro found
          cases found with
          | none => exact ihrest
          | some stored => trivial
        · exact Task.emit_onlyReports ihrest

/-! ### Runs in worlds that coincide -/

/-- Two runs halt alike, or end with one result in worlds that coincide. -/
def Run.Concurs : Run V E α → Run V E α → Prop
  | .ok (result, w), .ok (result', w') => result' = result ∧ w.Coincides w'
  | .error halt, .error halt' => halt' = halt
  | _, _ => False

/-- What is noted down is the same, but for what has been reported. -/
def Moment.Concurs : Moment V E → Moment V E → Prop
  | .called request w, .called request' w' => request' = request ∧ w.Coincides w'
  | moment, moment' => moment' = moment

section Runs

variable {answer : Call V → World V E → Run V E (Reply V)} {record : Call V → World V E → List (Moment V E)}
  {w w' : World V E}

/-- If a run has ended, so has every one that concurs with it, with the same result. -/
theorem Run.Concurs.of_ok {run run' : Run V E α} (h : run.Concurs run') {result : α} (hrun : run = .ok (result, w)) :
    ∃ w', run' = .ok (result, w') ∧ w.Coincides w' := by
  subst hrun
  cases run' with
  | error halt => exact h.elim
  | ok pair =>
    obtain ⟨rfl, hw⟩ := h
    exact ⟨pair.2, rfl, hw⟩

/-- If a run has halted, so has every one that concurs with it, for the same reason. -/
theorem Run.Concurs.of_error {run run' : Run V E α} (h : run.Concurs run') {halt : Halt} (hrun : run = .error halt) :
    run' = .error halt := by
  subst hrun
  cases run' with
  | error halt' => exact congrArg Except.error h
  | ok pair => exact h.elim

/-- Calls are answered alike, whatever has been reported. -/
def Call.Concurring (answer : Call V → World V E → Run V E (Reply V)) : Prop :=
  ∀ request w w', w.Coincides w' → (answer request w).Concurs (answer request w')

/-- A task that does not look at reports comes to the same in worlds that coincide. -/
theorem Task.Indifferent.run (hanswer : Call.Concurring answer) {task : Task V E α} (h : task.Indifferent)
    (hw : w.Coincides w') : (task.run answer w).Concurs (task.run answer w') := by
  induction task generalizing w w' with
  | done result => exact ⟨rfl, hw⟩
  | act change next ih =>
    obtain ⟨hchange, hnext, hrest⟩ := h w w' hw
    unfold Task.run
    rw [hnext]
    exact ih w hrest hchange
  | acquire slot resolution next ih =>
    unfold Task.run
    rw [hw.cells]
    obtain ⟨trace, rfl⟩ := hw
    cases w.cells slot with
    | ready object => exact ih _ (h _) ⟨trace, rfl⟩
    | empty => exact ih _ (h _) ⟨trace, rfl⟩
    | creating creator =>
      dsimp only
      split
      · exact ih _ (h _) ⟨trace, rfl⟩
      · exact rfl
  | settle slot cell next ih =>
    obtain ⟨trace, rfl⟩ := hw
    exact ih h ⟨trace, rfl⟩
  | notify slot next ih => exact ih h hw
  | call request next ih =>
    have hreply := hanswer request w w' hw
    unfold Task.run
    cases hfirst : answer request w with
    | error halt => simp only [hreply.of_error hfirst, Run.Concurs]
    | ok pair =>
      obtain ⟨after, hsecond, hafter⟩ := hreply.of_ok hfirst
      simp only [hsecond]
      exact ih _ (h _) hafter
  | meet gate next ih => exact ih h hw

/-- Nor does what happens meanwhile depend on reports. -/
theorem Task.Indifferent.journal (hanswer : Call.Concurring answer)
    (hrecord : ∀ request w w', w.Coincides w' → List.Forall₂ Moment.Concurs (record request w) (record request w'))
    {task : Task V E α} (h : task.Indifferent) (hw : w.Coincides w') :
    List.Forall₂ Moment.Concurs (task.journal answer record w) (task.journal answer record w') := by
  induction task generalizing w w' with
  | done result => exact .nil
  | act change next ih =>
    obtain ⟨hchange, hnext, hrest⟩ := h w w' hw
    unfold Task.journal
    rw [hnext]
    exact ih w hrest hchange
  | acquire slot resolution next ih =>
    unfold Task.journal
    rw [hw.cells]
    obtain ⟨trace, rfl⟩ := hw
    cases w.cells slot with
    | ready object => exact ih _ (h _) ⟨trace, rfl⟩
    | empty => exact .cons rfl (ih _ (h _) ⟨trace, rfl⟩)
    | creating creator =>
      dsimp only
      split
      · exact ih _ (h _) ⟨trace, rfl⟩
      · exact .nil
  | settle slot cell next ih =>
    obtain ⟨trace, rfl⟩ := hw
    exact .cons rfl (ih h ⟨trace, rfl⟩)
  | notify slot next ih => exact ih h hw
  | call request next ih =>
    have hreply := hanswer request w w' hw
    unfold Task.journal
    refine List.rel_append (hrecord request w w' hw) ?_
    cases hfirst : answer request w with
    | error halt => simp only [hreply.of_error hfirst, List.Forall₂.nil]
    | ok pair =>
      obtain ⟨after, hsecond, hafter⟩ := hreply.of_ok hfirst
      simp only [hsecond]
      exact ih _ (h _) hafter
  | meet gate next ih => exact ih h hw

variable [Hashed V]

/-- Calls are answered alike, however deep they are nested. -/
theorem Call.answer_concurs (depth : Nat) :
    Call.Concurring (Call.answer depth : Call V → World V E → Run V E (Reply V)) := by
  induction depth with
  | zero => exact fun _ _ _ _ => rfl
  | succ depth ih => exact fun request w w' hw => request.body_indifferent.run ih hw

/-- Calls that are taken up in worlds that coincide have the same journal, but for what has been reported. -/
theorem Call.journal_concurs (depth : Nat) (request : Call V) (w w' : World V E) (hw : w.Coincides w') :
    List.Forall₂ Moment.Concurs (Call.journal depth request w) (Call.journal depth request w') := by
  induction depth generalizing request w w' with
  | zero => exact .nil
  | succ depth ih =>
    exact .cons ⟨rfl, hw⟩ (request.body_indifferent.journal (Call.answer_concurs depth) ih hw)

/-- What a key is located at does not depend on reports, and neither does what is stored then. -/
theorem Resolution.locate_concurs (resolution : Resolution) (key : Key) (c : ComponentId) (hw : w.Coincides w')
    {located : Except ResolveError (Option (Stored V E))} {u : World V E}
    (hrun : w.run 0 (locate resolution key c) = .ok (located, u)) :
    ∃ u', w'.run 0 (locate resolution key c) = .ok (located, u') ∧ u.Coincides u' :=
  (locate_indifferent.run (Call.answer_concurs 0) hw).of_ok hrun

end Runs

end Injection

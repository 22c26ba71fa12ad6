import Injection.Proofs.Journal

/-!
# What locating keeps

Nothing that calls do changes components, except that locating a key may store bindings. So what is true of the
components, and stays true when a key is located, is true whenever a call is taken up and when it has been answered.
-/

namespace Injection

variable {V E : Type}

/-- A property of worlds that rests on the components, and that locating a key does not end. -/
structure World.Steady (P : World V E → Prop) : Prop where
  of_components : ∀ {w w' : World V E}, P w → w'.components = w.components → P w'
  locate : ∀ {resolution : Resolution} {key : Key} {c : ComponentId} {answer : Call V → World V E → Run V E (Reply V)}
    {w w' : World V E} {located : Except ResolveError (Option (Stored V E))}, P w →
      (Resolution.locate resolution key c).run answer w = .ok (located, w') → P w'

/-- Calls may be made where the property holds, and leave it so. -/
def Contract.steady (P : World V E → Prop) : Contract V E where
  asks _ w := P w
  halts _ _ _ := True
  answers _ _ _ w := P w

section Walk

variable {P : World V E → Prop} (hP : World.Steady P) {answer : Call V → World V E → Run V E (Reply V)}
  {halts : Halt → Prop} {w w' : World V E} {context : Context V} (hkept : (Contract.steady P).KeptBy answer halts)
  (hstuck : halts .stuck)
include hP

/-- A steady property passes on to a world that is alike. -/
theorem World.Steady.alike (h : P w) (halike : w.Alike w') : P w' := hP.of_components h halike.components

include hstuck

/-- Keeping a value changes no component, if making it changes none to the worse. -/
theorem World.Steady.keep_meets (h : P w) {slot : Slot} {create : Task V E (Except ResolveError (Object V))}
    (hcreate : ∀ w', P w' → (create.run answer w').Meets halts fun _ made => P made) :
    ((Task.keep slot context create).run answer w).Meets halts fun _ w' => P w' := by
  apply Task.keep_meets
  · exact fun _ _ _ halike => hP.alike h halike
  · exact fun _ _ halike => hP.alike h halike
  · exact fun _ _ _ => hstuck
  · intro _ w' halike
    refine (hcreate w' (hP.of_components h halike.components)).mono (fun _ => id) fun result made hmade => ?_
    cases result with
    | ok object => exact fun w'' hlast => hP.of_components hmade hlast.components
    | error e => exact hP.of_components hmade rfl

include hkept

/-- Whatever a program does, a steady property that calls leave as it is stays true. -/
theorem Program.toTask_steady (program : Program V E) (h : P w) :
    ((program.toTask context).run answer w).Meets halts fun _ w' => P w' := by
  induction program generalizing w with
  | done outcome => exact h
  | request key parameters next ih => exact Task.meets_call (hkept _ w h) fun reply _ => ih reply
  | start c key parameters next ih =>
    exact Task.meets_call (hkept _ w.entered (hP.alike h w.alike_entered)) fun reply _ => ih reply
  | forward owner key next ih =>
    unfold toTask Task.run
    dsimp only [id]
    split
    · exact Task.meets_call (hkept _ w h) fun reply _ => ih _
    · exact ih _ h
  | share entry body next ihbody ih =>
    refine Task.meets_bind (hP.keep_meets hstuck h fun w' hw' => ?_) fun result _ => ih result
    exact Task.meets_bind (ihbody hw') fun _ _ hmade => hmade
  | make type value next ih => exact ih _ (hP.of_components h rfl)
  | touch change next ih => exact ih _ (hP.of_components h rfl)
  | report event next ih => exact ih (hP.alike h (w.alike_emit context.resolution.logger event))
  | meet gate next ih => exact ih h

variable [Hashed V]

/-- So it does when the value of a binding is obtained. -/
theorem Stored.obtain_steady (stored : Stored V E) (h : P w) :
    ((stored.obtain context).run answer w).Meets halts fun _ w' => P w' := by
  have hcreate (w' : World V E) (hw' : P w') :
      ((stored.create context).run answer w').Meets halts fun _ made => P made :=
    Task.meets_bind (Program.toTask_steady hP hkept hstuck _ hw') fun _ _ hmade => hmade
  apply obtain_meets
  · exact fun _ => hcreate w h
  · exact fun _ => h
  · exact fun slot w' _ halike => hP.keep_meets hstuck (hP.alike h halike) hcreate

/-- A call keeps what the calls that it makes and locating its key keep. -/
theorem Call.body_steady (request : Call V) (h : P w) : (request.body.run answer w).Meets halts fun _ w' => P w' := by
  cases request with
  | resolve c path resolution key parameters =>
    apply Resolution.resolve_meets fun _ between => P between
    · exact fun _ _ _ _ halike => hP.alike h halike
    · intro w' _ halike
      obtain ⟨located, found, hlocate⟩ := (Resolution.locate_acts (V := V) (E := E) resolution key c).exists_run w'
      rw [hlocate]
      exact hP.locate (hP.alike h halike) (hlocate answer)
    · exact fun _ _ _ hlocated halike => hP.alike hlocated halike
    · exact fun _ _ hlocated halike => hP.alike hlocated halike
    · exact fun stored between _ hlocated => (Stored.obtain_steady hP hkept hstuck stored hlocated).mono (fun _ => id)
        fun _ _ hmade _ halike => hP.alike hmade halike
  | obtain owner key context =>
    unfold body
    rw [Task.run_read]
    cases w.binding? owner key.identity with
    | none => exact h
    | some binding =>
      refine Task.meets_bind (Stored.obtain_steady hP hkept hstuck ⟨owner, binding⟩ h) fun result w' hresult => ?_
      cases result <;> exact hresult

end Walk

section Calls

variable [Hashed V] {P : World V E → Prop} (hP : World.Steady P)
include hP

/-- A property that rests on the components outlasts calls, however deep they go. -/
theorem Contract.steady_kept (depth : Nat) : (Contract.steady P).KeptBy (Call.answer depth) fun _ => True := by
  induction depth with
  | zero => exact fun _ _ _ => trivial
  | succ depth ih => exact fun request w h => Call.body_steady hP ih trivial request h

/-- It holds whenever a call is taken up within one that is made where it holds. -/
theorem Call.steady_of_called {depth : Nat} {outer request : Call V} {u v : World V E} (hu : P u)
    (hcalled : .called request v ∈ Call.journal depth outer u) : P v :=
  Contract.asks_of_called (Contract.steady_kept hP)
    (fun request _ _ hasks hkept => Call.body_steady hP hkept rfl request hasks) hu hcalled

variable {w w' : World V E} {q : Query V} {c : ComponentId} {depth : Nat}

/-- It holds when a top-level request has been answered. -/
theorem Query.run_steady (hw : P w) {reply : Reply V} (hrun : w.run depth (q.task c) = .ok (reply, w')) : P w' := by
  obtain ⟨_, hanswer, -⟩ := Query.answer_of_run hrun
  exact (Contract.steady_kept hP depth (q.call c w) w.entered (hP.alike hw w.alike_entered)).of_ok hanswer

/-- And it holds whenever a call is taken up meanwhile. -/
theorem Query.steady_of_called (hw : P w) {request : Call V} {v : World V E}
    (hcalled : .called request v ∈ w.journal depth (q.task c)) : P v := by
  rw [q.journal_task] at hcalled
  exact Call.steady_of_called hP (hP.alike hw w.alike_entered) hcalled

end Calls

end Injection

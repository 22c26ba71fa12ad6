import Injection.Proofs.Completion
import Injection.Proofs.Multiplicity

/-!
# Decorated bindings

A binding is decorated by wrapping its definition, so the decorator that was added last is the outermost one. Still
values pass through the decorators in the order in which they were added: the original definition runs first, each
decorator makes a new object of its own type of what it is given, and the first that is given an object of another type
ends it all. What is kept for a single binding is what the last decorator has made. So the definition and all decorators
succeed together, at most once, and as long as they have not, they are run together again.
-/

namespace Injection

variable {V E α : Type}

/-! ### Decorators -/

/-- The action comes to a result on its own, whatever it is answered and whatever comes after it. -/
inductive Action.Returns : Action V E α → Prop
  | result (a : α) : Returns (pure a)
  | request (key : Key) (parameters : Parameters V) {rest : Reply V → Action V E α} :
    (∀ reply, Returns (rest reply)) → Returns (Action.request key parameters >>= rest)
  | start (c : ComponentId) (key : Key) (parameters : Parameters V) {rest : Reply V → Action V E α} :
    (∀ reply, Returns (rest reply)) → Returns (Action.start c key parameters >>= rest)
  | make (type : TypeId) (value : V) {rest : Object V → Action V E α} :
    (∀ object, Returns (rest object)) → Returns (Action.make type value >>= rest)
  | touch (change : E → E) {rest : E → Action V E α} :
    (∀ before, Returns (rest before)) → Returns (Action.touch change >>= rest)
  | report (event : Event) {action : Action V E α} : Returns action → Returns (Action.report event >>= fun _ => action)
  | meet (gate : String) {action : Action V E α} : Returns action → Returns (Action.meet gate >>= fun _ => action)

/-- What a binding is decorated with: a type, and a function that makes a value of the type of an object of the type. -/
structure Decorator (V E : Type) where
  type : TypeInfo
  apply : Object V → Action V E V
  returns : ∀ object, (apply object).Returns

/-- The binding decorated with one decorator after the other. -/
def Binding.decorateAll (b : Binding V E) (ds : List (Decorator V E)) : Binding V E :=
  ds.foldl (fun b d => b.decorate d.type d.apply) b

/-- Decorators leave the kind of a binding as it is. -/
@[simp]
theorem Binding.decorateAll_kind (b : Binding V E) (ds : List (Decorator V E)) : (b.decorateAll ds).kind = b.kind := by
  induction ds generalizing b with
  | nil => rfl
  | cons d ds ih => exact ih _

namespace Decorator

/-- The decorator makes a new object of an object of its type. -/
def program (d : Decorator V E) (object : Object V) : Program V E :=
  Action.toProgram do return .ok (← Action.make d.type.id (← d.apply object))

/-- An outcome passes through decorators, from the first to the last. An error is left alone, and so is all that comes
after an object of a type that the next decorator is not for. -/
def pass (context : Context V) : List (Decorator V E) → Outcome V → Task V E (Outcome V)
  | [], outcome => .done outcome
  | _ :: _, .error e => .done (.error e)
  | d :: ds, .ok object =>
    if object.type = d.type.id then ((d.program object).toTask context).bind (pass context ds)
    else .done (.error (.dependency (.incorrectType d.type object.type)))

/-- An object passes through all decorators: each is given one of its type, and what it makes of that becomes a new
object of the type, which is given to the next. -/
inductive Through (answer : Call V → World V E → Run V E (Reply V)) (context : Context V) :
    List (Decorator V E) → Object V → World V E → Object V → World V E → Prop
  | nothing (object : Object V) (w : World V E) : Through answer context [] object w object w
  | next {d : Decorator V E} {ds : List (Decorator V E)} {object last : Object V} {w between w' : World V E} {value : V} :
      object.type = d.type.id → (d.apply object).ComesTo answer context w value between →
        Through answer context ds (between.allocate d.type.id value).1 (between.allocate d.type.id value).2 last w' →
          Through answer context (d :: ds) object w last w'

/-- An error passes through all decorators unchanged, and none of them is called. -/
@[simp]
theorem pass_error (context : Context V) (ds : List (Decorator V E)) (e : DefinitionError) :
    pass context ds (.error e) = .done (.error e) := by
  cases ds <;> rfl

end Decorator

/-! ### What decorated definitions come to -/

section Runs

variable {answer : Call V → World V E → Run V E (Reply V)} {context : Context V} {w w' between : World V E}
  {object last : Object V} {outcome : Outcome V} {d : Decorator V E} {ds : List (Decorator V E)}

/-- An action that returns comes to a result, or to nothing at all. -/
theorem Action.Returns.comesTo_or_halts {action : Action V E α} (h : action.Returns) (w : World V E) :
    (∃ a w', action.ComesTo answer context w a w') ∨
      ∃ halt, ∀ next : α → Program V E, ((action next).toTask context).run answer w = .error halt := by
  have hcall {request : Call V} {rest : Reply V → Action V E α} (w : World V E)
      (ih : ∀ reply w, (∃ a w', (rest reply).ComesTo answer context w a w') ∨
        ∃ halt, ∀ next : α → Program V E, ((rest reply next).toTask context).run answer w = .error halt) :
      (∃ a w', ∀ next : α → Program V E, (Task.call request fun reply => (rest reply next).toTask context).run answer w =
        ((next a).toTask context).run answer w') ∨
          ∃ halt, ∀ next : α → Program V E,
            (Task.call request fun reply => (rest reply next).toTask context).run answer w = .error halt := by
    cases hreply : answer request w with
    | error halt => exact .inr ⟨halt, fun next => by simp only [Task.run, hreply]⟩
    | ok pair =>
      rcases ih pair.1 pair.2 with ⟨a, w', hcomes⟩ | ⟨halt, hhalts⟩
      · exact .inl ⟨a, w', fun next => by simp only [Task.run, hreply, hcomes next]⟩
      · exact .inr ⟨halt, fun next => by simp only [Task.run, hreply, hhalts next]⟩
  induction h generalizing w with
  | result a => exact .inl ⟨a, w, fun _ => rfl⟩
  | request key parameters _ ih => exact hcall w ih
  | start c key parameters _ ih => exact hcall _ ih
  | make type value _ ih => exact ih _ _
  | touch change _ ih => exact ih _ _
  | report event _ ih => exact ih _
  | meet gate _ ih => exact ih w

namespace Decorator

/-- What a decorator makes is a new object of its type. -/
theorem program_run {value : V} (h : (d.apply object).ComesTo answer context w value between) :
    ((d.program object).toTask context).run answer w =
      .ok (.ok (between.allocate d.type.id value).1, (between.allocate d.type.id value).2) := h _

/-- An object that has passed through decorators passes on to those that come after them. -/
theorem Through.pass_run (h : Through answer context ds object w last w') (after : List (Decorator V E)) :
    (pass context (ds ++ after) (.ok object)).run answer w = (pass context after (.ok last)).run answer w' := by
  induction h with
  | nothing => rfl
  | next htype hcomes _ ih =>
    rw [List.cons_append, pass, if_pos htype, Task.run_bind_of_ok (program_run hcomes)]
    exact ih

/-- What decorators come to: the object has passed through all of them, or up to the first that is not for it. -/
theorem pass_run_cases (h : (pass context ds (.ok object)).run answer w = .ok (outcome, w')) :
    (∃ last, outcome = .ok last ∧ Through answer context ds object w last w') ∨
      ∃ before d after given, ds = before ++ d :: after ∧ Through answer context before object w given w' ∧
        given.type ≠ d.type.id ∧ outcome = .error (.dependency (.incorrectType d.type given.type)) := by
  induction ds generalizing object w with
  | nil =>
    obtain ⟨rfl, rfl⟩ := Prod.mk.inj (Except.ok.inj h)
    exact .inl ⟨object, rfl, .nothing object w⟩
  | cons d ds ih =>
    rw [pass] at h
    split at h
    · next htype =>
      rcases (d.returns object).comesTo_or_halts w with ⟨value, between, hcomes⟩ | ⟨halt, hhalts⟩
      · rw [Task.run_bind_of_ok (program_run hcomes)] at h
        rcases ih h with ⟨last, hlast, hthrough⟩ | ⟨before, other, after, given, rfl, hthrough, hother⟩
        · exact .inl ⟨last, hlast, .next htype hcomes hthrough⟩
        · exact .inr ⟨d :: before, other, after, given, rfl, .next htype hcomes hthrough, hother⟩
      · have hhalted : ((d.program object).toTask context).run answer w = .error halt := hhalts _
        rw [Task.run_bind, hhalted] at h
        cases h
    · next htype =>
      obtain ⟨rfl, rfl⟩ := Prod.mk.inj (Except.ok.inj h)
      exact .inr ⟨[], d, ds, object, rfl, .nothing object w, htype, rfl⟩

end Decorator

/-- A decorator that is added goes on with the outcome of what it is added to. -/
theorem Binding.decorate_toTask (b : Binding V E) (d : Decorator V E) (context : Context V) :
    ((b.decorate d.type d.apply).definition context).toTask context =
      ((b.definition context).toTask context).bind (Decorator.pass context [d]) := by
  refine (Program.toTask_andThen _ _).trans (congrArg _ (funext fun outcome => ?_))
  cases outcome with
  | error e => rfl
  | ok object =>
    dsimp only [Decorator.pass]
    by_cases htype : object.type = d.type.id
    · rw [if_pos htype, if_pos htype]
      exact (Task.bind_done _).symm
    · rw [if_neg htype, if_neg htype]
      rfl

/-- The original definition runs first, and its outcome passes through the decorators as they were added. -/
theorem Binding.decorateAll_toTask (b : Binding V E) (ds : List (Decorator V E)) (context : Context V) :
    ((b.decorateAll ds).definition context).toTask context =
      ((b.definition context).toTask context).bind (Decorator.pass context ds) := by
  induction ds generalizing b with
  | nil => exact (Task.bind_done _).symm
  | cons d ds ih =>
    refine (ih (b.decorate d.type d.apply)).trans ?_
    rw [decorate_toTask, Task.bind_assoc]
    refine congrArg _ (funext fun outcome => ?_)
    cases outcome with
    | error e => simp only [Decorator.pass_error, Task.bind]
    | ok object =>
      rw [Decorator.pass, Decorator.pass]
      split
      · exact Task.bind_assoc _ _ _
      · exact Decorator.pass_error context ds _

/-- The original definition has come to an object, and the object has passed through all decorators. -/
theorem Binding.decorateAll_run_ok {b : Binding V E}
    (h : (((b.decorateAll ds).definition context).toTask context).run answer w = .ok (.ok object, w')) :
    ∃ given between, ((b.definition context).toTask context).run answer w = .ok (.ok given, between) ∧
      Decorator.Through answer context ds given between object w' := by
  rw [b.decorateAll_toTask] at h
  obtain ⟨outcome, between, hrun, hpass⟩ := Task.run_bind_eq_ok h
  cases outcome with
  | error e =>
    rw [Decorator.pass_error] at hpass
    cases hpass
  | ok given =>
    rcases Decorator.pass_run_cases hpass with ⟨last, hlast, hthrough⟩ | ⟨_, _, _, _, -, -, -, hmismatch⟩
    · exact ⟨given, between, hrun, Except.ok.inj hlast ▸ hthrough⟩
    · cases hmismatch

end Runs

/-- What the definition of a decorated binding comes to, in every context, however calls are answered and in every
world. -/
structure Binding.Composes (b : Binding V E) (ds : List (Decorator V E)) : Prop where
  /-- The original definition is run first, and its outcome passes through the decorators. -/
  first : ∀ context : Context V, ((b.decorateAll ds).definition context).toTask context =
    ((b.definition context).toTask context).bind (Decorator.pass context ds)
  /-- An error of the original definition is the outcome, and nothing is run after it. -/
  failed : ∀ {context answer w e w'}, ((b.definition context).toTask context).run answer w = .ok (.error e, w') →
    (((b.decorateAll ds).definition context).toTask context).run answer w = .ok (.error e, w')
  /-- An object passes through the decorators in order. If they all are for what they are given, the outcome is what
  the last one makes; otherwise it is an error of the first that is not, and those after it are not run. -/
  completed : ∀ {context answer w object between},
    ((b.definition context).toTask context).run answer w = .ok (.ok object, between) → ∀ outcome w',
      (((b.decorateAll ds).definition context).toTask context).run answer w = .ok (outcome, w') ↔
        (∃ last, outcome = .ok last ∧ Decorator.Through answer context ds object between last w') ∨
          ∃ before d after given, ds = before ++ d :: after ∧
            Decorator.Through answer context before object between given w' ∧ given.type ≠ d.type.id ∧
              outcome = .error (.dependency (.incorrectType d.type given.type))
  /-- If the original definition comes to no end, no decorator is run. -/
  halted : ∀ {context answer w halt}, ((b.definition context).toTask context).run answer w = .error halt →
    (((b.decorateAll ds).definition context).toTask context).run answer w = .error halt

/-- Decorators compose in the order in which they are added. -/
theorem Binding.composes (b : Binding V E) (ds : List (Decorator V E)) : b.Composes ds where
  first := b.decorateAll_toTask ds
  failed hrun := by
    rw [b.decorateAll_toTask, Task.run_bind_of_ok hrun, Decorator.pass_error]
    rfl
  completed {context answer w object between} hrun outcome w' := by
    rw [b.decorateAll_toTask, Task.run_bind_of_ok hrun]
    refine ⟨Decorator.pass_run_cases, ?_⟩
    rintro (⟨last, rfl, hthrough⟩ | ⟨before, d, after, given, rfl, hthrough, hother, rfl⟩)
    · have hpass := hthrough.pass_run []
      rw [List.append_nil] at hpass
      exact hpass
    · rw [hthrough.pass_run, Decorator.pass, if_neg hother]
      rfl
  halted hrun := by
    rw [b.decorateAll_toTask, Task.run_bind, hrun]
    rfl

/-! ### What is kept for a single binding -/

section Single

variable [Hashed V]

/-- The cell that keeps the value of a single binding. -/
def Stored.spot (stored : Stored V E) : Slot := .single stored.owner stored.binding.key.identity

/-- The world after what a journal tells, from one where a component stores a binding of the single kind and keeps
nothing in its cell. Top-level requests are made and answered, for whatever keys and at whatever components. In
between components may be built and dropped, more bindings may be stored, and anything may happen outside of the
container. -/
inductive World.Lapsed (stored : Stored V E) : World V E → List (Moment V E) → Prop
  | start {w : World V E} : w.binding? stored.owner stored.binding.key.identity = some stored.binding →
      (∀ slot creator, w.cells slot ≠ .creating creator) → w.cells stored.spot = .empty → Lapsed stored w []
  | changed {w w' : World V E} {journal : List (Moment V E)} : Lapsed stored w journal → w.Accrues w' →
      w'.cells = w.cells → Lapsed stored w' journal
  | requested {w w' : World V E} {journal : List (Moment V E)} {q : Query V} {c : ComponentId} {depth : Nat}
      {reply : Reply V} : Lapsed stored w journal → w.run depth (q.task c) = .ok (reply, w') →
        Lapsed stored w' (journal ++ w.journal depth (q.task c))

/-- What a journal says of the value that is kept for a single binding. -/
structure World.Retells (w : World V E) (stored : Stored V E) (journal : List (Moment V E)) : Prop where
  binding : w.binding? stored.owner stored.binding.key.identity = some stored.binding
  idle : ∀ slot creator, w.cells slot ≠ .creating creator
  turns : Cell.Turns stored.spot .empty journal (w.cells stored.spot)
  prompt : Moment.Prompt journal
  conclusive : Moment.Conclusive journal
  among : ∀ {request v}, .called request v ∈ journal →
    v.binding? stored.owner stored.binding.key.identity = some stored.binding
  given : ∀ {request v ps object}, .called request v ∈ journal → request.Brings v stored ps object →
    w.cells stored.spot = .ready object
  made : ∀ {object}, .ended stored.spot (.ready object) ∈ journal → ∃ request v visit depth made,
    .called request v ∈ journal ∧ request.visit? v = some visit ∧ visit.stored = stored ∧
      (stored.create visit.context).run (Call.answer depth) visit.world = .ok (.ok object, made)

variable {stored : Stored V E} {w w' v v' : World V E} {journal : List (Moment V E)} {request : Call V}
  {context : Context V} {ps : Parameters V} {q : Query V} {c : ComponentId} {depth : Nat} {object : Object V}

/-- Only the binding itself has its value kept in its cell. -/
theorem Stored.eq_of_slot?_spot {other : Stored V E}
    (h : w.binding? stored.owner stored.binding.key.identity = some stored.binding)
    (hother : w.binding? other.owner other.binding.key.identity = some other.binding)
    (hslot : other.slot? context = some stored.spot) : other = stored := by
  unfold slot? at hslot
  split at hslot
  · cases hslot
  · obtain ⟨howner, hkey⟩ := Slot.single.inj (Option.some.inj hslot)
    exact eq_of_identity h hother howner hkey
  · cases hslot

section Kind

variable (hkind : stored.binding.kind = .single)
include hkind

/-- A binding of the single kind has one cell, whatever the context. -/
theorem Stored.slot?_of_single (context : Context V) : stored.slot? context = some stored.spot := by
  simp [slot?, hkind, spot]

/-- The value of a binding of the single kind is kept in its one cell. -/
theorem Stored.obtain_of_single (context : Context V) :
    stored.obtain context = Task.keep stored.spot context (stored.create context) := by
  simp [obtain, hkind, spot]

/-- A call that is given an object has it kept, and one that fails leaves the cell as it was, without a value. -/
theorem Call.Obtains.spot_of_answer (h : request.Obtains stored v ps) {reply : Reply V}
    (hanswer : Call.answer depth request v = .ok (reply, v')) :
    (∀ object, reply = .ok (some object) → v'.cells stored.spot = .ready object) ∧
      ∀ e, reply = .error e → v'.cells stored.spot = v.cells stored.spot ∧
        ∀ object, v.cells stored.spot ≠ .ready object :=
  h.slot_of_answer (fun context _ => Stored.slot?_of_single hkind context) (by simp [hkind]) hanswer

/-- A call for a value that is there is given it, and runs no definition. -/
theorem Call.Obtains.of_ready (h : request.Obtains stored v ps) (hready : v.cells stored.spot = .ready object) :
    request.visit? v = none ∧ ∀ depth, ∃ v', Call.answer (depth + 1) request v = .ok (.ok (some object), v') := by
  obtain ⟨context, u, finish, -, hu, hvisit, hfinish, hbody⟩ := h.exists_context
  have hkept : u.cells stored.spot = .ready object := hu.cells ▸ hready
  refine ⟨?_, fun depth => ?_⟩
  · rw [hvisit]
    simp only [Stored.visit?, hkind]
    change stored.opening? context stored.spot u = none
    rw [Stored.opening?, hkept]
  · obtain ⟨u', hobtained⟩ : ∃ u', (Task.keep stored.spot context (stored.create context)).run (Call.answer depth) u =
        .ok (.ok object, u') := Task.keep_ready hkept
    obtain ⟨v', hlast, -⟩ := hfinish (.ok object) u'
    rw [hbody, Stored.obtain_of_single hkind, Task.run_bind_of_ok hobtained]
    exact ⟨v', hlast _⟩

/-- A call for a value that is not there, and is not being made, runs the definition. -/
theorem Call.Obtains.of_empty (h : request.Obtains stored v ps) (hempty : v.cells stored.spot = .empty) :
    ∃ visit, request.visit? v = some visit ∧ visit.stored = stored := by
  obtain ⟨context, u, -, -, hu, hvisit, -⟩ := h.exists_context
  obtain ⟨t, hopened, -⟩ := stored.exists_visit context (w := u) (by simp [hkind]) fun slot hslot => by
    obtain rfl := Option.some.inj ((Stored.slot?_of_single hkind context).symm.trans hslot)
    rw [hu.cells]
    exact hempty
  exact ⟨_, hvisit.trans hopened, rfl⟩

/-- What a journal says of the value that is kept, it says together with the journal of a request that is answered. -/
theorem World.Retells.requested (h : w.Retells stored journal) {reply : Reply V}
    (hrun : w.run depth (q.task c) = .ok (reply, w')) :
    w'.Retells stored (journal ++ w.journal depth (q.task c)) := by
  obtain ⟨hidle, hturns⟩ := Query.settles h.idle hrun
  have horder := Query.inOrder q c depth w
  rw [hrun] at horder
  have hnow {request : Call V} {v : World V E} (hcalled : .called request v ∈ w.journal depth (q.task c)) :=
    horder.of_called hcalled h.binding
  refine ⟨horder.accrues h.binding, hidle, h.turns.append (hturns _), h.prompt.append (q.journal_prompt c depth w),
    h.conclusive.append (Query.journal_conclusive h.idle hrun), fun hcalled => ?_,
    fun {request v ps object} hcalled hbrings => ?_, fun hended => ?_⟩
  · exact (List.mem_append.mp hcalled).elim h.among hnow
  · rcases List.mem_append.mp hcalled with hbefore | hlater
    · have hkept := hturns stored.spot
      rw [h.given hbefore hbrings] at hkept
      exact hkept.of_ready.1
    · obtain ⟨_, _, replied, v', -, -, -, hreplied, hlast⟩ := Query.lasts_of_called h.idle hrun hlater
      obtain ⟨hobtains, depth', v'', hgiven⟩ := hbrings
      obtain ⟨rfl, rfl⟩ := Prod.mk.inj (Call.answer_unique hreplied hgiven)
      exact hlast _ _ ((hobtains.spot_of_answer hkind hgiven).1 _ rfl)
  · rcases List.mem_append.mp hended with hbefore | hlater
    · obtain ⟨request, v, visit, depth, made, hcalled, hrest⟩ := h.made hbefore
      exact ⟨request, v, visit, depth, made, List.mem_append_left _ hcalled, hrest⟩
    · have hwithin := hlater
      rw [q.journal_task] at hwithin
      obtain ⟨request, v, visit, hcalled, hvisit, hslot, hmade⟩ :=
        Call.exists_visit_of_ended (by simp [Stored.spot]) hwithin
      rw [← q.journal_task] at hcalled
      obtain ⟨depth', made, hcreated⟩ := hmade _ rfl
      obtain ⟨haccrues, hstored⟩ := Call.visit?_stored hvisit
      have hsame := Stored.eq_of_slot?_spot (haccrues (hnow hcalled)) hstored hslot
      exact ⟨request, v, visit, depth', made, List.mem_append_right _ hcalled, hvisit, hsame, hsame ▸ hcreated⟩

/-- Whatever has happened, the journal says what is kept in the cell of the binding. -/
theorem World.Lapsed.retells (h : World.Lapsed stored w journal) : w.Retells stored journal := by
  induction h with
  | start hstored hidle hempty => exact ⟨hstored, hidle, hempty ▸ .nil _, trivial, trivial, nofun, nofun, nofun⟩
  | changed _ haccrues hcells ih =>
    exact ⟨haccrues ih.binding, hcells ▸ ih.idle, hcells ▸ ih.turns, ih.prompt, ih.conclusive, ih.among, hcells ▸ ih.given,
      ih.made⟩
  | requested _ hrun ih => exact ih.requested hkind hrun

/-- Once an object is noted down as made, the definition is not run again. -/
theorem World.Retells.not_run_after (h : w.Retells stored journal) {before after : List (Moment V E)} {visit : Visit V E}
    (hjournal : journal = before ++ .ended stored.spot (.ready object) :: after) (hcalled : .called request v ∈ after)
    (hvisit : request.visit? v = some visit) : visit.stored ≠ stored := by
  subst hjournal
  intro hsame
  have hprompt : Moment.Prompt after := h.prompt.right
  have hbegun := hprompt.begun_mem hcalled hvisit (Stored.slot?_of_single (hsame ▸ hkind) _)
  exact h.turns.quiet_after _ hbegun (hsame ▸ rfl)

/-- If the definition comes to an object, the object is noted down as made, and the definition is not run again. -/
theorem World.Retells.once (h : w.Retells stored journal) {before after : List (Moment V E)} {visit : Visit V E}
    {made : World V E} (hjournal : journal = before ++ .called request v :: after)
    (hvisit : request.visit? v = some visit) (hsame : visit.stored = stored)
    (hcreated : (visit.stored.create visit.context).run (Call.answer depth) visit.world = .ok (.ok object, made)) :
    .ended stored.spot (.ready object) ∈ after ∧
      ∀ {later u other}, .called later u ∈ after → later.visit? u = some other → other.stored ≠ stored := by
  subst hjournal
  have hslot {other : Visit V E} (hother : other.stored = stored) :
      other.stored.slot? other.context = some stored.spot := hother ▸ Stored.slot?_of_single (hother ▸ hkind) _
  obtain ⟨during, rest, rfl, hduring⟩ := h.conclusive.right.1 visit _ depth object made hvisit (hslot hsame) hcreated
  refine ⟨List.mem_append_right _ List.mem_cons_self, fun {later u other} hcalled hlater hother => ?_⟩
  -- Until the object is noted down the cell is taken, and then it is settled.
  rcases List.mem_append.mp hcalled with hmeanwhile | hafter
  · exact hduring later u other hmeanwhile hlater (hslot hother)
  · have hlast := (List.mem_cons.mp hafter).resolve_left (by simp)
    have hjournal : before ++ .called request v :: (during ++ .ended stored.spot (.ready object) :: rest) =
        (before ++ .called request v :: during) ++ .ended stored.spot (.ready object) :: rest := by simp
    exact h.not_run_after hkind hjournal hlast hlater hother

end Kind

/-- A value is there exactly if it is noted down as made. -/
theorem World.Retells.ready_iff (h : w.Retells stored journal) :
    w.cells stored.spot = .ready object ↔ .ended stored.spot (.ready object) ∈ journal :=
  h.turns.ready_iff (by simp)

/-- As long as nothing is noted down as made, there is no value. -/
theorem World.Retells.empty_of_unmade (h : w.Retells stored journal)
    (hunmade : ∀ object, .ended stored.spot (.ready object) ∉ journal) : w.cells stored.spot = .empty := by
  cases hcell : w.cells stored.spot with
  | empty => rfl
  | creating creator => exact absurd hcell (h.idle _ _)
  | ready object => exact absurd (h.ready_iff.mp hcell) (hunmade object)

/-- The original definition is run for a visit and comes to an object, and that passes through all decorators. -/
def Binding.Chains (b : Binding V E) (ds : List (Decorator V E)) (visit : Visit V E) (object : Object V) : Prop :=
  ∃ depth given, ∃ between made : World V E,
    visit.world.run depth ((b.definition visit.context).toTask visit.context) = .ok (.ok given, between) ∧
      Decorator.Through (Call.answer depth) visit.context ds given between object made

/-- What the journal of any number of requests says of a single binding that is decorated, and what the next request
for it comes to. -/
structure World.OneChain (w : World V E) (stored : Stored V E) (b : Binding V E) (ds : List (Decorator V E))
    (journal : List (Moment V E)) : Prop where
  /-- If the definition and then all decorators come to an object, the object is noted down as made. They are not run
  again, neither until then nor later, so they succeed at most once. -/
  once : ∀ {before request v visit object after}, journal = before ++ .called request v :: after →
    request.visit? v = some visit → visit.stored = stored → b.Chains ds visit object →
      .ended stored.spot (.ready object) ∈ after ∧
        ∀ {later u other}, .called later u ∈ after → later.visit? u = some other → other.stored ≠ stored
  /-- What is noted down as made, they have come to. -/
  made : ∀ {object}, .ended stored.spot (.ready object) ∈ journal → ∃ request v visit, .called request v ∈ journal ∧
    request.visit? v = some visit ∧ visit.stored = stored ∧ b.Chains ds visit object
  /-- Once an object is noted down as made, nothing happens to it. -/
  quiet : ∀ {object before after}, journal = before ++ .ended stored.spot (.ready object) :: after →
    ∀ moment ∈ after, ¬ moment.Concerns stored.spot
  /-- Every call for the binding that is given an object, be it a request of its own or a dependency, is given what
  they have come to. -/
  given : ∀ {request v object} {ps : Parameters V}, .called request v ∈ journal → request.Brings v stored ps object →
    .ended stored.spot (.ready object) ∈ journal
  /-- So all of them are given the same object. -/
  same : ∀ {request request' v v' object object'} {ps qs : Parameters V}, .called request v ∈ journal →
    .called request' v' ∈ journal → request.Brings v stored ps object → request'.Brings v' stored qs object' →
      object = object'
  /-- A call that fails leaves the binding as it was, and without a value. -/
  failed : ∀ {request v depth e v'} {ps : Parameters V}, request.Obtains stored v ps →
    Call.answer depth request v = .ok (.error e, v') →
      v'.cells stored.spot = v.cells stored.spot ∧ ∀ object, v'.cells stored.spot ≠ .ready object
  /-- Whenever there is no value, neither made nor being made, a call runs the definition and then the decorators, and
  comes to what they come to. -/
  attempted : ∀ {request v} {ps : Parameters V}, request.Obtains stored v ps → v.cells stored.spot = .empty →
    ∃ visit, request.visit? v = some visit ∧ visit.stored = stored ∧ ∀ depth outcome made,
      visit.world.run depth
          (((b.definition visit.context).toTask visit.context).bind (Decorator.pass visit.context ds)) =
        .ok (outcome, made) → ∃ v', Call.answer (depth + 1) request v =
          .ok ((outcome.mapError DefinitionError.toResolveError).map some, v')
  /-- A top-level request that comes to an object comes to what they have come to by then. -/
  requested : ∀ {q : Query V} {c : ComponentId} {depth object w'}, w.found? q.key c = some stored →
    w.run depth (q.task c) = .ok (.ok (some object), w') →
      .ended stored.spot (.ready object) ∈ journal ++ w.journal depth (q.task c)
  /-- Once they have succeeded, a top-level request is given what they have come to and does not run them. -/
  shared : ∀ {q : Query V} {c : ComponentId} {object}, w.found? q.key c = some stored →
    .ended stored.spot (.ready object) ∈ journal → ∀ depth,
      (∃ w', w.run (depth + 1) (q.task c) = .ok (q.accept (.ok (some object)), w')) ∧
        ∀ visit, ¬ w.Visits (depth + 1) (q.task c) visit
  /-- As long as they have not, whatever has failed before, a top-level request runs the definition and then the
  decorators, and comes to what they come to. -/
  again : ∀ {q : Query V} {c : ComponentId}, w.found? q.key c = some stored →
    (∀ object, .ended stored.spot (.ready object) ∉ journal) → ∃ v,
      (∀ depth, w.Visits (depth + 1) (q.task c) ⟨stored, q.context c w stored, v⟩) ∧ ∀ depth outcome made,
        v.run depth (((b.definition (q.context c w stored)).toTask (q.context c w stored)).bind
            (Decorator.pass (q.context c w stored) ds)) = .ok (outcome, made) →
          ∃ w', w.run (depth + 1) (q.task c) =
            .ok (q.accept ((outcome.mapError DefinitionError.toResolveError).map some), w')

section Chains

variable {b : Binding V E} {ds : List (Decorator V E)} {visit : Visit V E}

/-- A decorated definition comes to an object if the original one and all decorators do. -/
theorem Binding.chains_iff (hstored : visit.stored.binding = b.decorateAll ds) : b.Chains ds visit object ↔
    ∃ depth made, (visit.stored.create visit.context).run (Call.answer depth) visit.world =
      .ok (.ok object, made) := by
  constructor
  · rintro ⟨depth, given, between, made, hrun, hthrough⟩
    have hdecorated : ((visit.stored.binding.definition visit.context).toTask visit.context).run (Call.answer depth)
        visit.world = .ok (.ok object, made) := by
      rw [hstored]
      exact ((b.composes ds).completed hrun _ _).mpr (.inl ⟨object, rfl, hthrough⟩)
    exact ⟨depth, made, Stored.create_run_ok.mpr hdecorated⟩
  · rintro ⟨depth, made, hcreated⟩
    have hrun := Stored.create_run_ok.mp hcreated
    rw [hstored] at hrun
    obtain ⟨given, between, hgiven, hthrough⟩ := Binding.decorateAll_run_ok hrun
    exact ⟨depth, given, between, made, hgiven, hthrough⟩

/-- A call that runs a decorated definition comes to what the original one and the decorators come to. -/
theorem Call.answer_of_chain (hvisit : request.visit? v = some visit) (hstored : visit.stored.binding = b.decorateAll ds)
    {outcome : Outcome V} {made : World V E}
    (hrun : visit.world.run depth
      (((b.definition visit.context).toTask visit.context).bind (Decorator.pass visit.context ds)) =
        .ok (outcome, made)) :
    ∃ v', Call.answer (depth + 1) request v = .ok ((outcome.mapError DefinitionError.toResolveError).map some, v') := by
  have hdecorated : ((visit.stored.binding.definition visit.context).toTask visit.context).run (Call.answer depth)
      visit.world = .ok (outcome, made) := by
    rw [hstored, b.decorateAll_toTask]
    exact hrun
  exact Call.answer_of_visit hvisit hdecorated

/-- Decorators compose in the order in which they are added. If the binding is single, they and the original definition
are run together, successfully at most once, whatever is requested and however often they fail. -/
theorem Binding.decorators_compose (b : Binding V E) (ds : List (Decorator V E)) :
    b.Composes ds ∧ ∀ {stored : Stored V E} {w : World V E} {journal : List (Moment V E)},
      stored.binding = b.decorateAll ds → b.kind = .single → World.Lapsed stored w journal →
        w.OneChain stored b ds journal := by
  refine ⟨b.composes ds, fun {stored w journal} hstored hsingle hlapsed => ?_⟩
  have hkind : stored.binding.kind = .single := by rw [hstored, decorateAll_kind, hsingle]
  have htold := hlapsed.retells hkind
  exact {
    once := fun hjournal hvisit hsame hchains => by
      obtain ⟨depth, made, hcreated⟩ := (chains_iff (hsame ▸ hstored)).mp hchains
      exact htold.once hkind hjournal hvisit hsame hcreated
    made := fun hmade => by
      obtain ⟨request, v, visit, depth, made, hcalled, hvisit, hsame, hcreated⟩ := htold.made hmade
      have hchains := (chains_iff (hsame ▸ hstored)).mpr ⟨depth, made, hsame ▸ hcreated⟩
      exact ⟨request, v, visit, hcalled, hvisit, hsame, hchains⟩
    quiet := fun hjournal => (hjournal ▸ htold.turns).quiet_after
    given := fun hcalled hbrings => htold.ready_iff.mp (htold.given hcalled hbrings)
    same := fun hcalled hcalled' hbrings hbrings' =>
      Cell.ready.inj ((htold.given hcalled hbrings).symm.trans (htold.given hcalled' hbrings'))
    failed := fun hobtains hanswer => by
      obtain ⟨hcell, hnone⟩ := (hobtains.spot_of_answer hkind hanswer).2 _ rfl
      exact ⟨hcell, hcell ▸ hnone⟩
    attempted := fun hobtains hempty => by
      obtain ⟨visit, hvisit, hsame⟩ := hobtains.of_empty hkind hempty
      exact ⟨visit, hvisit, hsame, fun depth outcome made hrun => Call.answer_of_chain hvisit (hsame ▸ hstored) hrun⟩
    requested := fun {q c depth object w'} hfound hrun => by
      have hlater := (hlapsed.requested hrun).retells hkind
      obtain ⟨replied, hanswer, haccept⟩ := Query.answer_of_run hrun
      have hbrings : (q.call c w).Brings w.entered stored q.parameters object :=
        ⟨Query.call_obtains hfound, depth, w', Query.eq_of_accept haccept ▸ hanswer⟩
      exact hlater.ready_iff.mp (hlater.given (List.mem_append_right _ (Query.called_mem hrun)) hbrings)
    shared := fun hfound hmade depth => by
      obtain ⟨hnone, hanswer⟩ := (Query.call_obtains hfound).of_ready hkind (htold.ready_iff.mpr hmade)
      obtain ⟨w', hanswer⟩ := hanswer depth
      refine ⟨⟨w', ?_⟩, Query.not_visits hnone depth⟩
      rw [Query.run_eq, hanswer]
      rfl
    again := fun hfound hunmade => by
      obtain ⟨v, hvisit, -⟩ := Query.exists_visit hfound (by simp [hkind]) fun slot hslot => by
        obtain rfl := Option.some.inj ((Stored.slot?_of_single hkind _).symm.trans hslot)
        exact htold.empty_of_unmade hunmade
      refine ⟨v, fun depth => ⟨_, _, World.journal_of_visit hvisit depth ▸ List.mem_cons_self, hvisit⟩,
        fun depth outcome made hrun => ?_⟩
      obtain ⟨w', hanswer⟩ := Call.answer_of_chain hvisit hstored hrun
      refine ⟨w', ?_⟩
      rw [Query.run_eq, hanswer]
      rfl }

end Chains

end Single

/-! ### A value that is decorated twice -/

/-- Numbers are told apart by their lowest bytes. -/
instance : Hashed Nat := ⟨Digest.littleEndian 8⟩

/-- A single binding whose provider function fails when it is called for the first time. -/
def Binding.tentative : Binding Nat Bool :=
  .ofProvider (.nth 0) .single .nothing fun _ => do
    let tried ← Action.touch fun _ => true
    return if tried then .ok 1 else .error "not yet"

/-- The decorator that replaces a number by what a function makes of it. -/
def Decorator.replace (f : Nat → Nat) : Decorator Nat Bool :=
  ⟨.nth 0, fun object => pure (f object.value), fun _ => .result _⟩

/-- The binding, decorated by adding one and then by doubling, as a component stores it. -/
def Stored.tentative : Stored Nat Bool := ⟨0, Binding.tentative.decorateAll [.replace (· + 1), .replace (2 * ·)]⟩

/-- This component, and a child of it. -/
def World.tentative : World Nat Bool :=
  { World.initial false with
    components := [⟨[], [], [Stored.tentative.binding], .default, true⟩, ⟨[], [0], [], .default, true⟩] }

/-- What fails at first is made at the second attempt, which adds one before it doubles, and given again then. -/
theorem Binding.decorators_compose_tentative :
    ∃ (w₁ w₂ w₃ : World Nat Bool) (e : ResolveError) (object : Object Nat) (journal : List (Moment Nat Bool)),
      World.tentative.run 2 ((Query.get (.nth 0) []).task 1) = .ok (.error e, w₁) ∧
        w₁.run 2 ((Query.get (.nth 0) []).task 1) = .ok (.ok (some object), w₂) ∧
          w₂.run 2 ((Query.get (.nth 0) []).task 0) = .ok (.ok (some object), w₃) ∧ object.value = 4 ∧
            Binding.tentative.Composes [.replace (· + 1), .replace (2 * ·)] ∧
              w₃.OneChain .tentative .tentative [.replace (· + 1), .replace (2 * ·)] journal := by
  obtain ⟨w₁, w₂, w₃, e, object, hfails, hmakes, hagain, hvalue⟩ :
      ∃ (w₁ w₂ w₃ : World Nat Bool) (e : ResolveError) (object : Object Nat),
        World.tentative.run 2 ((Query.get (.nth 0) []).task 1) = .ok (.error e, w₁) ∧
          w₁.run 2 ((Query.get (.nth 0) []).task 1) = .ok (.ok (some object), w₂) ∧
            w₂.run 2 ((Query.get (.nth 0) []).task 0) = .ok (.ok (some object), w₃) ∧ object.value = 4 :=
    ⟨_, _, _, _, _, rfl, rfl, rfl, rfl⟩
  have hstart : World.Lapsed Stored.tentative World.tentative [] := .start rfl nofun rfl
  have hlapsed := ((hstart.requested hfails).requested hmakes).requested hagain
  obtain ⟨hcomposes, hchain⟩ := decorators_compose Binding.tentative [.replace (· + 1), .replace (2 * ·)]
  exact ⟨w₁, w₂, w₃, e, object, _, hfails, hmakes, hagain, hvalue, hcomposes, hchain rfl rfl hlapsed⟩

end Injection

import Injection.Proofs.Interleaving
import Injection.Proofs.Propagation

/-!
# Failures on their way out

A failure is wrapped once by every definition whose dependency it is, once by every binding that forwards to
the component it comes from, and once by the cell of a shared value that could not be made. So the wrappers
around a failure count what it has passed through, and neither the innermost failure nor the wording changes on
the way out.
-/

namespace Injection

variable {V E α : Type}

namespace ResolveError

/-- The failure with a number of wrappers around it. -/
def wrapped (e : ResolveError) : Nat → ResolveError
  | 0 => e
  | layers + 1 => .dependency (e.wrapped layers)

/-- Wrappers around wrappers add up. -/
theorem wrapped_add (e : ResolveError) (n m : Nat) : e.wrapped (n + m) = (e.wrapped m).wrapped n := by
  induction n with
  | zero => rw [Nat.zero_add]; rfl
  | succ n ih => rw [Nat.succ_add]; exact congrArg dependency ih

/-- Wrappers are counted, and change neither the innermost failure nor the wording. -/
theorem wrapped_eq (e : ResolveError) (layers : Nat) :
    (e.wrapped layers).rootCause = e.rootCause ∧ (e.wrapped layers).message = e.message ∧
      (e.wrapped layers).depth = e.depth + layers := by
  induction layers with
  | zero => exact ⟨rfl, rfl, rfl⟩
  | succ layers ih => exact ⟨ih.1, ih.2.1, congrArg (· + 1) ih.2.2⟩

end ResolveError

/-! ### What a failure passes through -/

/-- What wraps a failure that passes through it. -/
inductive Hop where
  /-- A definition whose dependency has failed. -/
  | definition
  /-- A binding that forwards to the one that has failed. -/
  | forwarding
  /-- The cell of a shared value that could not be made. -/
  | sharing
deriving DecidableEq

/-- The program makes a call whose failure it passes on, through some hops: from a dependency of its
definition, from the component that it forwards to, or from within the definition of a shared value. -/
inductive Program.Passes (answer : Call V → World V E → Run V E (Reply V)) (context : Context V)
    (request : Call V) (v : World V E) : Program V E → World V E → List Hop → Prop where
  | definition {α : Type} {dependencies : Dependency V E α} (finish : α → Action V E (Outcome V)) {w : World V E} :
    (dependencies context).Propagates → (dependencies context).Makes answer context w request v →
      Passes answer context request v (Definition.withDependencies dependencies finish context) w [.definition]
  | forwarding (stored : Stored V E) : v.isAlive stored.owner = true →
      request = .obtain stored.owner stored.binding.key { context with component := stored.owner } →
        Passes answer context request v (stored.forwarding.definition context) v [.forwarding]
  | sharing (entry : CatalogEntry V E) (key : Key) {w : World V E} {hops : List Hop} :
    w.cells (.shared entry.number) = .empty →
      Passes answer context request v (entry.definition key context) (w.opened (.shared entry.number) context) hops →
        Passes answer context request v (entry.sharedDefinition key context) w (.sharing :: hops)
  | decorated (type : TypeInfo) (f : Object V → Action V E V) {inner : Definition V E} {w : World V E}
    {hops : List Hop} : Passes answer context request v (inner context) w hops →
      Passes answer context request v (Definition.decorate type f inner context) w hops

/-- A call comes to make another, by way of definitions that each pass on the failure of what they request. -/
inductive Call.Nests [Hashed V] : Nat → Call V → World V E → List Hop → Nat → Call V → World V E → Prop where
  | here (depth : Nat) (request : Call V) (w : World V E) : Nests depth request w [] depth request w
  | inside {depth depth' : Nat} {request middle inner : Call V} {w u v : World V E} {visit : Visit V E}
    {hops hops' : List Hop} : request.visit? w = some visit →
      Program.Passes (Call.answer depth) visit.context middle u
        (visit.stored.binding.definition visit.context) visit.world hops →
      Nests depth middle u hops' depth' inner v → Nests (depth + 1) request w (hops ++ hops') depth' inner v

section Chains

variable {answer : Call V → World V E → Run V E (Reply V)} {context : Context V} {request : Call V}
  {w v v' : World V E} {e : ResolveError} {hops : List Hop}

/-- A program fails as what it passes on, wrapped once for each hop. -/
theorem Program.Passes.run {program : Program V E} (h : program.Passes answer context request v w hops)
    (hfails : answer request v = .ok (.error e, v')) :
    ∃ cause w', (program.toTask context).run answer w = .ok (.error cause, w') ∧
      cause.toResolveError = e.wrapped hops.length := by
  induction h with
  | definition finish hpropagates hmakes =>
    obtain ⟨w', hcomes⟩ := hpropagates.comesTo hfails hmakes
    exact ⟨_, w', Definition.withDependencies_failed hcomes finish, rfl⟩
  | forwarding stored halive hrequest =>
    refine ⟨.dependency e, v', ?_, rfl⟩
    simp only [Stored.forwarding, Binding.new, toTask, Task.run, id, halive, if_true, ← hrequest, hfails,
      Dependency.present]
  | sharing entry key hempty _ ih =>
    obtain ⟨cause, made, hbody, hcause⟩ := ih
    obtain ⟨w', hrun⟩ := entry.sharedDefinition_run key hempty hbody
    exact ⟨_, w', hrun, congrArg _ hcause⟩
  | decorated type f _ ih =>
    obtain ⟨cause, w', hinner, hcause⟩ := ih
    refine ⟨cause, w', ?_, hcause⟩
    unfold Definition.decorate
    rw [toTask_andThen]
    exact Task.run_bind_of_ok hinner

variable [Hashed V] {depth depth' : Nat} {inner : Call V}

/-- A call fails as what it comes to make, wrapped once for each hop. -/
theorem Call.Nests.fails (h : Call.Nests depth request w hops depth' inner v)
    (hfails : Call.answer depth' inner v = .ok (.error e, v')) :
    ∃ w', Call.answer depth request w = .ok (.error (e.wrapped hops.length), w') := by
  induction h with
  | here => exact ⟨v', hfails⟩
  | inside hvisit hpasses _ ih =>
    obtain ⟨u', hmiddle⟩ := ih hfails
    obtain ⟨cause, made, hrun, hcause⟩ := hpasses.run hmiddle
    obtain ⟨w', hanswer⟩ := Call.answer_of_visit hvisit hrun
    refine ⟨w', hanswer.trans ?_⟩
    rw [List.length_append, ResolveError.wrapped_add, ← hcause]
    rfl

/-- If every definition that is run passes on the failures of all that it requests, every call is nested so. -/
theorem Call.nests_of_called (hcalled : .called inner v ∈ Call.journal depth request w)
    (hpasses : ∀ visit, (∃ middle u, .called middle u ∈ Call.journal depth request w ∧ middle.visit? u = some visit) →
      ∀ depth' middle u, visit.Makes depth' middle u →
        ∃ hops, Program.Passes (Call.answer depth') visit.context middle u
          (visit.stored.binding.definition visit.context) visit.world hops) :
    ∃ hops depth', Call.Nests depth request w hops depth' inner v := by
  induction depth generalizing request w with
  | zero => cases hcalled
  | succ depth ih =>
    rcases List.mem_cons.mp hcalled with hsame | hwithin
    · obtain ⟨rfl, rfl⟩ := Moment.called.inj hsame
      exact ⟨[], _, .here _ _ _⟩
    · rw [Call.body_journal] at hwithin
      cases hvisit : request.visit? w with
      | none => simp [hvisit] at hwithin
      | some visit =>
        rw [hvisit] at hwithin
        obtain ⟨middle, u, hmakes, hmiddle, hsubset⟩ := Task.called_mem (Visit.called_creation hwithin)
        obtain ⟨hops, hpass⟩ := hpasses visit ⟨request, w, List.mem_cons_self, hvisit⟩ depth middle u hmakes
        have hjournal : Call.journal depth middle u ⊆ Call.journal (depth + 1) request w := by
          refine List.Subset.trans hsubset (List.Subset.trans ?_ (List.subset_cons_self _ _))
          rw [Call.body_journal, hvisit]
          exact Visit.creation_subset _ _ _
        obtain ⟨hops', depth', hnests⟩ := ih hmiddle fun other ⟨request', u', hcalled', hvisit'⟩ =>
          hpasses other ⟨request', u', hjournal hcalled', hvisit'⟩
        exact ⟨hops ++ hops', depth', .inside hvisit hpass hnests⟩

end Chains

/-- Every hop is of one kind. -/
theorem Hop.length_eq (hops : List Hop) :
    hops.length = hops.count .definition + hops.count .forwarding + hops.count .sharing := by
  induction hops with
  | nil => rfl
  | cons hop hops ih => cases hop <;> simp [ih] <;> omega

/-- A failure that is passed on from one definition to the next surfaces wrapped once for each of them, once for
each binding that forwards and once for each shared value on the way; its innermost failure and its wording are
those of the nested request. Every nested request is passed on so if every definition that is run passes on
what it requests, and standard dependencies do. What the value would have been provided by makes no difference.
A provider or a constructor that fails itself is reported as it is, and is its own innermost failure; a shared
value adds one wrapper. -/
theorem failures_wrapped_once_per_hop [Hashed V] (w : World V E) (c : ComponentId) (q : Query V) (depth : Nat) :
    (∀ hops depth' inner v e v', Call.Nests depth (q.call c w) w.entered hops depth' inner v →
        Call.answer depth' inner v = .ok (.error e, v') →
          ∃ top w', w.run depth (q.task c) = .ok (.error top, w') ∧ top = e.wrapped hops.length ∧
            top.rootCause = e.rootCause ∧ top.message = e.message ∧
            top.depth = e.depth + (hops.count .definition + hops.count .forwarding + hops.count .sharing)) ∧
      (∀ inner v, .called inner v ∈ w.journal depth (q.task c) →
        (∀ visit, w.Visits depth (q.task c) visit → ∀ depth' middle u, visit.Makes depth' middle u →
          ∃ hops, Program.Passes (Call.answer depth') visit.context middle u
            (visit.stored.binding.definition visit.context) visit.world hops) →
          ∃ hops depth', Call.Nests depth (q.call c w) w.entered hops depth' inner v) ∧
      (∀ {α : Type} (dependencies : Dependency V E α), dependencies.Standard → dependencies.Propagates) ∧
      (∀ {α : Type} (dependencies : Dependency V E α) context inner u v e v', (dependencies context).Propagates →
        (dependencies context).Makes (Call.answer depth) context u inner v →
          Call.answer depth inner v = .ok (.error e, v') →
            ∃ u', ∀ finish, ((Definition.withDependencies dependencies finish context).toTask context).run
              (Call.answer depth) u = .ok (.error (.dependency e), u')) ∧
      (∀ {α : Type} (type : TypeId) (dependencies : Dependency V E α) provider context u a u₁ message u₂,
        (dependencies context).ComesTo (Call.answer depth) context u (.ok a) u₁ →
          (provider a).ComesTo (Call.answer depth) context u₁ (.error message) u₂ →
            ((Definition.ofProvider type dependencies provider context).toTask context).run (Call.answer depth) u =
              .ok (.error (.provider message), u₂)) ∧
      (∀ (entry : CatalogEntry V E) key context u supplied u₁ message u₂,
        (CatalogEntry.supply key entry.descriptor.arguments context).ComesTo (Call.answer depth) context u
            (.ok supplied) u₁ →
          (entry.construct ⟨supplied, context.parameters⟩).ComesTo (Call.answer depth) context u₁
              (.error message) u₂ →
            ((entry.definition key context).toTask context).run (Call.answer depth) u =
              .ok (.error (.provider message), u₂)) ∧
      ∀ (request : Call V) (u : World V E) visit message u', request.visit? u = some visit →
        ((visit.stored.binding.definition visit.context).toTask visit.context).run (Call.answer depth) visit.world =
            .ok (.error (.provider message), u') →
          ∃ u'', Call.answer (depth + 1) request u = .ok (.error (.provider message), u'') ∧
            (ResolveError.provider message).rootCause = .provider message := by
  refine ⟨fun hops depth' inner v e v' hnests hfails => ?_, fun inner v hcalled hpasses => ?_,
    fun _ h => h.propagates, fun _ _ _ _ _ _ _ hpropagates hmakes hfails => ?_,
    fun type _ _ _ _ _ _ _ _ hobtained hfailed => Definition.ofProvider_failed type hobtained hfailed,
    fun entry key _ _ _ _ _ _ hsupplied hfailed => entry.definition_failed key hsupplied hfailed,
    fun _ _ _ _ _ hvisit hrun => ?_⟩
  · obtain ⟨w', hanswer⟩ := hnests.fails hfails
    obtain ⟨hcause, hmessage, hdepth⟩ := e.wrapped_eq hops.length
    refine ⟨_, w', ?_, rfl, hcause, hmessage, hdepth.trans (congrArg _ (Hop.length_eq hops))⟩
    rw [q.run_eq, hanswer]
    rfl
  · rw [q.journal_task] at hcalled
    refine Call.nests_of_called hcalled fun visit ⟨request, u, hrequest, hvisit⟩ => hpasses visit ?_
    exact ⟨request, u, by rwa [q.journal_task], hvisit⟩
  · obtain ⟨u', hcomes⟩ := hpropagates.comesTo hfails hmakes
    exact ⟨u', fun finish => Definition.withDependencies_failed hcomes finish⟩
  · obtain ⟨u'', hanswer⟩ := Call.answer_of_visit hvisit hrun
    exact ⟨u'', hanswer, rfl⟩

/-- An entry whose values are constructed from a value of another type. -/
def CatalogEntry.needing (n : UInt64) (isSingleton : Bool) (scope : Option ScopeTag) (need : UInt64) :
    CatalogEntry Unit Unit :=
  ⟨n.toNat, ⟨.nth n, "Factory", .everywhere, isSingleton, none, scope, [.dependency "needed" (.nth need) none false]⟩,
    fun _ => pure (.ok (⟨n⟩, ()))⟩

/-- A parent and its child, which stores a value that needs a shared one. That needs a value of the parent, which
needs something that is missing. -/
def World.passage : World Unit Unit :=
  let config : ComponentConfig Unit Unit :=
    ⟨none, [Catalog.factory ⟨[.needing 1 true none 2, .needing 2 false (some DefaultScope.app.tag) 3]⟩]⟩
  { World.initial () with
    components := [⟨[DefaultScope.app.tag], [], [], config, true⟩, ⟨[], [0], [.nth 0 [1]], config, true⟩] }

/-- What is missing is reported with five wrappers around it: of the three definitions, the shared value, and the
binding that forwards to the parent. -/
theorem failures_wrapped_once_per_hop_passage :
    ∃ inner v top w', Call.Nests 5 ((Query.get (.nth 0) []).call 1 World.passage) World.passage.entered
        [.definition, .sharing, .definition, .forwarding, .definition] 1 inner v ∧
      World.passage.run 5 ((Query.get (.nth 0) []).task 1) = .ok (.error top, w') ∧
        top = (ResolveError.unresolved (.of (.nth 3))).wrapped 5 ∧ top.rootCause = .unresolved (.of (.nth 3)) ∧
          top.depth = 5 := by
  have hneeds (type : TypeInfo) : (Dependency.all [.inject type] : Dependency Unit Unit _).Propagates :=
    (Dependency.Standard.all fun _ h => List.mem_singleton.mp h ▸ .inject type).propagates
  have hnests : ∃ inner v v', Call.Nests (4 + 1) ((Query.get (.nth 0) []).call 1 World.passage) World.passage.entered
      ([.definition] ++ ([.sharing, .definition] ++ ([.forwarding] ++ ([.definition] ++ [])))) 1 inner v ∧
        Call.answer 1 inner v = .ok (.error (.unresolved (.of (.nth 3))), v') :=
    ⟨_, _, _, .inside rfl (.definition _ (hneeds _ _) List.mem_cons_self)
      (.inside rfl (.sharing _ _ rfl (.definition _ (CatalogEntry.supply_propagates _ _ _) List.mem_cons_self))
        (.inside rfl (.forwarding _ rfl rfl)
          (.inside rfl (.definition _ (CatalogEntry.supply_propagates _ _ _) List.mem_cons_self) (.here _ _ _)))),
      by rfl⟩
  obtain ⟨inner, v, v', hnests, hfails⟩ := hnests
  obtain ⟨top, w', hrun, htop, hcause, -, hdepth⟩ :=
    (failures_wrapped_once_per_hop World.passage 1 (.get (.nth 0) []) 5).1 _ _ _ _ _ _ hnests hfails
  exact ⟨inner, v, top, w', hnests, hrun, htop, hcause, hdepth⟩

end Injection

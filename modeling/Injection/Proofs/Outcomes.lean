import Injection.Proofs.Sequence

/-!
# What runs come to

What a run comes to is put together from what its parts come to. A part that only changes the world
comes to what a conduct promises of it; a value that is kept comes to what making it comes to; and
nested calls come to what is promised of calls, which is shown by what a call does itself under the
same promises one level deeper.
-/

namespace Injection

variable {V E α β : Type}

/-- The run ends with a result and a world of which `post` is true, or else it halts as `halts`
allows. -/
def Run.Meets (run : Run V E α) (halts : Halt → Prop) (post : α → World V E → Prop) : Prop :=
  match run with
  | .ok (result, w) => post result w
  | .error halt => halts halt

section Meets

variable {answer : Call V → World V E → Run V E (Reply V)} {halts : Halt → Prop}
  {mid : α → World V E → Prop} {post : β → World V E → Prop} {w : World V E}

/-- Less may be promised, and more may halt. -/
theorem Run.Meets.mono {run : Run V E α} {halts' : Halt → Prop} {mid' : α → World V E → Prop}
    (h : run.Meets halts mid) (hhalts : ∀ halt, halts halt → halts' halt)
    (hmid : ∀ result w, mid result w → mid' result w) : run.Meets halts' mid' := by
  cases run with
  | error halt => exact hhalts halt h
  | ok pair => exact hmid pair.1 pair.2 h

/-- A run that must not halt ends with what is promised. -/
theorem Run.Meets.exists_ok {run : Run V E α} (h : run.Meets (fun _ => False) mid) :
    ∃ result w, run = .ok (result, w) ∧ mid result w := by
  cases run with
  | error halt => exact h.elim
  | ok pair => exact ⟨pair.1, pair.2, rfl, h⟩

/-- A run that has ended has ended with what is promised. -/
theorem Run.Meets.of_ok {run : Run V E α} {result : α} (h : run.Meets halts mid)
    (hrun : run = .ok (result, w)) : mid result w := by
  rw [hrun] at h
  exact h

/-- What is promised is promised of the run's own end. -/
theorem Run.Meets.with_run {run : Run V E α} (h : run.Meets halts mid) :
    run.Meets halts fun result w => mid result w ∧ run = .ok (result, w) := by
  cases run with
  | error halt => exact h
  | ok pair => exact ⟨h, rfl⟩

/-- A task followed by another comes to what the other comes to after the first. -/
theorem Task.meets_bind {task : Task V E α} {f : α → Task V E β}
    (h : (task.run answer w).Meets halts mid)
    (hf : ∀ result w', mid result w' → ((f result).run answer w').Meets halts post) :
    ((task.bind f).run answer w).Meets halts post := by
  rw [run_bind]
  cases hrun : task.run answer w with
  | error halt =>
    rw [hrun] at h
    exact h
  | ok pair =>
    rw [hrun] at h
    exact hf pair.1 pair.2 h

/-- A task that makes a call comes to what the task comes to after the reply. -/
theorem Task.meets_call {request : Call V} {next : Reply V → Task V E β}
    {mid : Reply V → World V E → Prop} (h : (answer request w).Meets halts mid)
    (hnext : ∀ reply w', mid reply w' → ((next reply).run answer w').Meets halts post) :
    ((Task.call request next).run answer w).Meets halts post := by
  unfold Task.run
  cases hanswer : answer request w with
  | error halt =>
    rw [hanswer] at h
    exact h
  | ok pair =>
    rw [hanswer] at h
    exact hnext pair.1 pair.2 h

end Meets

/-- The same components and the same values as before, apart from objects that were made in the
meantime. -/
structure World.Alike (w w' : World V E) : Prop where
  components : w'.components = w.components
  cells : w'.cells = w.cells
  nextObject : w.nextObject ≤ w'.nextObject

namespace World

variable {w w' w'' : World V E}

/-- Every world is like itself. -/
theorem Alike.refl (w : World V E) : w.Alike w := ⟨rfl, rfl, Nat.le_refl _⟩

/-- What is like a world that is like the first is like the first. -/
theorem Alike.trans (h : w.Alike w') (h' : w'.Alike w'') : w.Alike w'' :=
  ⟨h'.components.trans h.components, h'.cells.trans h.cells, Nat.le_trans h.nextObject h'.nextObject⟩

/-- The cell that is set. -/
@[simp]
theorem setCell_self (w : World V E) (slot : Slot) (cell : Cell V) : (w.setCell slot cell).cells slot = cell := by
  simp [setCell]

/-- The cells that are not. -/
theorem setCell_ne {slot other : Slot} (h : other ≠ slot) (w : World V E) (cell : Cell V) :
    (w.setCell slot cell).cells other = w.cells other := by
  simp [setCell, h]

/-- A report makes no difference. -/
theorem alike_emit (w : World V E) (logger : Option String) (event : Event) : w.Alike (w.emit logger event) :=
  ⟨by simp, by simp, by simp⟩

end World

/-- What a value that is kept comes to: the value that is there, or what making it comes to. -/
theorem Task.keep_meets {answer : Call V → World V E → Run V E (Reply V)} {halts : Halt → Prop}
    {post : Except ResolveError (Object V) → World V E → Prop} {w : World V E} {slot : Slot}
    {context : Context V} {create : Task V E (Except ResolveError (Object V))}
    (hready : ∀ object w', w.cells slot = .ready object → w.Alike w' → post (.ok object) w')
    (hcycle : ∀ w', w.cells slot = .creating context.resolution.number → w.Alike w' →
      post (.error (.cyclicDependency context.path)) w')
    (hstuck : ∀ creator, w.cells slot = .creating creator → creator ≠ context.resolution.number →
      halts .stuck)
    (hempty : w.cells slot = .empty →
      ∀ w', (w.setCell slot (.creating context.resolution.number)).Alike w' →
        (create.run answer w').Meets halts fun result made =>
          match result with
          | .ok object => ∀ w'', (made.setCell slot (.ready object)).Alike w'' → post (.ok object) w''
          | .error e => post (.error e) (made.setCell slot .empty)) :
    ((Task.keep slot context create).run answer w).Meets halts post := by
  unfold Task.keep Task.run
  cases hcell : w.cells slot with
  | ready object => exact hready object _ hcell (w.alike_emit _ _)
  | creating creator =>
    dsimp only
    split
    · next heq => exact hcycle _ (heq ▸ hcell) (w.alike_emit _ _)
    · next hne => exact hstuck creator hcell hne
  | empty =>
    have hcreate := hempty hcell _ (World.alike_emit _ context.resolution.logger .notFoundInCache)
    change ((create.bind _).run answer _).Meets halts post
    refine Task.meets_bind hcreate fun result made hpost => ?_
    cases result with
    | ok object => exact hpost _ (World.alike_emit _ _ _)
    | error e => exact hpost

/-- What the value of a stored binding comes to: what making it comes to, or keeping it. Only a multi
binding may be asked for without what it needs. -/
theorem Stored.obtain_meets [Hashed V] {answer : Call V → World V E → Run V E (Reply V)} {halts : Halt → Prop}
    {post : Except ResolveError (Object V) → World V E → Prop} {w : World V E} {stored : Stored V E}
    {context : Context V}
    (hmade : stored.slot? context = none → ((stored.create context).run answer w).Meets halts post)
    (hbare : stored.binding.kind = .multi → post (.error (.missingParameters stored.binding.key)) w)
    (hkept : ∀ slot w', stored.slot? context = some slot → w.Alike w' →
      ((Task.keep slot context (stored.create context)).run answer w').Meets halts post) :
    ((stored.obtain context).run answer w).Meets halts post := by
  unfold obtain
  dsimp only
  cases hkind : stored.binding.kind with
  | factory => exact hmade (by simp [slot?, hkind])
  | single => exact hkept _ w (by simp [slot?, hkind]) (.refl w)
  | multi =>
    dsimp only
    split
    · exact hbare hkind
    · exact hkept _ _ (by simp [slot?, hkind]) (w.alike_emit context.resolution.logger .multiInstance)

/-- What resolving a key comes to: a path that comes back to the key's site, or what locating the key
comes to, and for what is found what obtaining its value comes to. -/
theorem Resolution.resolve_meets [Hashed V] {answer : Call V → World V E → Run V E (Reply V)}
    {halts : Halt → Prop} {post : Reply V → World V E → Prop} {w : World V E} {c : ComponentId} {path : List Key}
    {resolution : Resolution} {key : Key} {parameters : Parameters V}
    (located : Except ResolveError (Option (Stored V E)) → World V E → Prop)
    (hcycle : ∀ visited w', visited ∈ path → visited.site = key.site → w.Alike w' →
      post (.error (.cyclicDependency (path ++ [key]))) w')
    (hlocate : ∀ w', (∀ visited ∈ path, visited.site ≠ key.site) → w.Alike w' →
      ((locate resolution key c).run answer w').Meets halts located)
    (hfailed : ∀ e between w', located (.error e) between → between.Alike w' → post (.error e) w')
    (hnone : ∀ between w', located (.ok none) between → between.Alike w' →
      post (if key.nullable then .ok none else .error (.unresolved key)) w')
    (hobtain : ∀ stored between, (∀ visited ∈ path, visited.site ≠ key.site) → located (.ok (some stored)) between →
      ((stored.obtain { component := stored.owner, key, parameters, path := path ++ [key], resolution }).run answer
        between).Meets halts fun result made =>
          ∀ w', made.Alike w' → post (result.map some) w') :
    ((resolve c path resolution key parameters).run answer w).Meets halts post := by
  have hlookup := w.alike_emit resolution.logger (.lookup key)
  unfold resolve
  rw [Task.run_emit]
  split
  · next hvisited =>
    obtain ⟨visited, hmem, hsite⟩ := List.any_eq_true.mp hvisited
    exact hcycle visited _ hmem (of_decide_eq_true hsite) (hlookup.trans (World.alike_emit _ _ _))
  · next hvisited =>
    have hfresh : ∀ visited ∈ path, visited.site ≠ key.site := by simpa using hvisited
    refine Task.meets_bind (hlocate _ hfresh hlookup) fun reply between hlocated => ?_
    match reply, hlocated with
    | .error e, hlocated => exact hfailed e between _ hlocated (World.alike_emit _ _ _)
    | .ok none, hlocated =>
      have hreply (event : Event) := hnone between _ hlocated (between.alike_emit resolution.logger event)
      dsimp only
      split
      · next hnullable =>
        simp only [hnullable, if_true] at hreply
        exact hreply .nullFallback
      · next hnullable =>
        simp only [hnullable] at hreply
        exact hreply (.failure (.unresolved key))
    | .ok (some stored), hlocated =>
      refine Task.meets_bind (hobtain stored between hfresh hlocated) fun result made hmade => ?_
      cases result with
      | ok object => exact hmade made (.refl made)
      | error e => exact hmade _ (World.alike_emit _ _ _)

/-! ### Tasks that only change the world -/

/-- The task asks for no cells, makes no calls and waits for nobody. -/
def Task.Acts : Task V E α → Prop
  | .done _ => True
  | .act _ next => ∀ w, (next w).Acts
  | _ => False

namespace Task

/-- Two tasks one after the other only change the world if each of them does. -/
theorem Acts.bind {task : Task V E α} {f : α → Task V E β} (h : task.Acts) (hf : ∀ result, (f result).Acts) :
    (task.bind f).Acts := by
  induction task with
  | done result => exact hf result
  | act change next ih => exact fun w => ih w (h w)
  | _ => exact h.elim

/-- Looking at the world changes nothing but what is known. -/
theorem read_acts : (Task.read : Task V E (World V E)).Acts := fun _ => trivial

/-- Reporting an event only changes the world. -/
theorem emit_acts (resolution : Resolution) (event : Event) :
    (Task.emit resolution event : Task V E Unit).Acts := fun _ => trivial

/-- A task that only changes the world comes to what a conduct promises of it, and leaves the cells
alone. -/
theorem Yields.meets {C : Conduct V E} {P : α → Prop} {making : List Slot} {task : Task V E α}
    (h : task.Yields C P making) (hacts : task.Acts) {w : World V E} (hw : C.holds w.components)
    (answer : Call V → World V E → Run V E (Reply V)) (halts : Halt → Prop) :
    (task.run answer w).Meets halts fun result w' =>
      P result ∧ C.holds w'.components ∧ w'.cells = w.cells ∧ w.nextObject ≤ w'.nextObject := by
  induction task generalizing w with
  | done result => exact ⟨h.2, hw, rfl, Nat.le_refl _⟩
  | act change next ih =>
    obtain ⟨hchange, hnext⟩ := h w hw
    refine (ih w hnext (hacts w) hchange.components).mono (fun _ => id) fun result w' hpost => ?_
    obtain ⟨hresult, hw', hcells, hobjects⟩ := hpost
    exact ⟨hresult, hw', hcells.trans hchange.cells, Nat.le_trans hchange.nextObject hobjects⟩
  | _ => exact hacts.elim

end Task

namespace Resolution

variable {resolution : Resolution} {key : Key}

/-- Visiting parents only changes the world if each visit does. -/
theorem searchParents_acts {visit : ComponentId → Task V E (Option (Stored V E))}
    (hvisit : ∀ c, (visit c).Acts) (parents : List ComponentId) :
    (searchParents resolution visit parents).Acts := by
  induction parents with
  | nil => trivial
  | cons parent rest ih =>
    apply Task.read_acts.bind
    intro w
    split
    · apply (hvisit parent).bind
      intro found
      cases found with
      | none => exact ih
      | some stored => trivial
    · exact (Task.emit_acts _ _).bind fun _ => ih

/-- A search only changes the world, by what it reports. -/
theorem search_acts (c : ComponentId) : (search resolution key c : Task V E (Option (Stored V E))).Acts := by
  unfold search
  generalize c + 1 = generations
  induction generations generalizing c with
  | zero => trivial
  | succ generations ih =>
    apply Task.read_acts.bind
    intro w
    split
    · exact (Task.emit_acts _ _).bind fun _ => trivial
    · exact searchParents_acts ih _

/-- Storing a binding only changes the world. -/
theorem memoize_acts (c : ComponentId) (binding : Binding V E) : (memoize resolution c binding).Acts := by
  intro w
  dsimp only
  split
  · exact (Task.emit_acts _ _).bind fun _ => trivial
  · exact (Task.emit_acts _ _).bind fun _ => trivial

/-- Consulting a catalog only changes the world. -/
theorem consult_acts (catalog : Catalog V E) (c : ComponentId) : (consult resolution catalog key c).Acts := by
  unfold consult
  split
  · trivial
  · split
    · trivial
    · split
      · exact (Task.emit_acts _ _).bind fun _ => trivial
      · split
        · exact (Task.emit_acts _ _).bind fun _ => trivial
        · apply Task.read_acts.bind
          intro w
          split
          · exact (Task.emit_acts _ _).bind fun _ => trivial
          · split
            · trivial
            · exact (Task.emit_acts _ _).bind fun _ => (memoize_acts _ _).bind fun _ => trivial

/-- Running the program of a factory only changes the world. -/
theorem synthesis_acts (program : Synthesis V E) : (synthesis resolution program).Acts := by
  induction program with
  | answer reply => trivial
  | consult catalog asked component next ih => exact (consult_acts catalog component).bind ih
  | touch change next ih => exact fun w => ih _

/-- Asking factories only changes the world. -/
theorem askFactories_acts (c : ComponentId) (factories : List (Factory V E)) :
    (askFactories resolution key c factories).Acts := by
  induction factories with
  | nil => trivial
  | cons factory rest ih =>
    apply (synthesis_acts _).bind
    intro reply
    match reply with
    | .error e => trivial
    | .ok none => exact ih
    | .ok (some binding) => exact (Task.emit_acts _ _).bind fun _ => (memoize_acts _ _).bind fun _ => trivial

/-- So does synthesizing a key. -/
theorem synthesize_acts (c : ComponentId) :
    (synthesize resolution key c : Task V E (Except ResolveError (Option (Stored V E)))).Acts :=
  Task.read_acts.bind fun _ => askFactories_acts c _

end Resolution

/-! ### Top-level requests -/

/-- The call that a top-level query makes at a component, for a resolution with the next free number. -/
def Query.call (q : Query V) (c : ComponentId) (w : World V E) : Call V :=
  .resolve c [] ⟨w.nextResolution, (w.config c).logger <|> none⟩ q.key q.parameters

/-- The world in which the next free resolution number is taken. -/
def World.entered (w : World V E) : World V E := { w with nextResolution := w.nextResolution + 1 }

/-- Entering a resolution only uses up its number. -/
theorem World.alike_entered (w : World V E) : w.Alike w.entered := ⟨rfl, rfl, Nat.le_refl _⟩

/-- A top-level query accepts what its call is answered. -/
theorem Query.run_eq [Hashed V] (q : Query V) (c : ComponentId) (depth : Nat) (w : World V E) :
    w.run depth (q.task c) =
      (Call.answer depth (q.call c w) w.entered).map fun (reply, w') => (q.accept reply, w') := by
  unfold World.run call World.entered
  change ((Task.enter c none q.key q.parameters).bind _).run _ w = _
  rw [Task.run_bind]
  simp only [Task.enter, Task.run]
  generalize Call.answer (V := V) (E := E) depth _ _ = replied
  cases replied <;> rfl

/-- A top-level request that comes to a reply accepts what its call is answered with. -/
theorem Query.answer_of_run [Hashed V] {q : Query V} {c : ComponentId} {depth : Nat} {w w' : World V E}
    {reply : Reply V} (h : w.run depth (q.task c) = .ok (reply, w')) :
    ∃ given, Call.answer depth (q.call c w) w.entered = .ok (given, w') ∧ q.accept given = reply := by
  rw [q.run_eq] at h
  cases hanswer : Call.answer depth (q.call c w) w.entered with
  | error halt => simp [hanswer, Except.map] at h
  | ok pair =>
    rw [hanswer] at h
    obtain ⟨haccept, rfl⟩ := Prod.mk.inj (Except.ok.inj h)
    exact ⟨pair.1, rfl, haccept⟩

/-- A top-level request numbers a resolution, resolves its key and accepts the reply. -/
theorem Query.run_task [Hashed V] (q : Query V) (c : ComponentId) (depth : Nat) (w : World V E) :
    w.run (depth + 1) (q.task c) =
      ((Resolution.resolve c [] ⟨w.nextResolution, (w.config c).logger <|> none⟩ q.key q.parameters).run
        (Call.answer depth) { w with nextResolution := w.nextResolution + 1 }).map
          fun (reply, w') => (q.accept reply, w') :=
  q.run_eq c (depth + 1) w

/-! ### Promises of calls -/

/-- What is promised of calls. -/
structure Contract (V E : Type) where
  /-- Which calls may be made, and when. -/
  asks : Call V → World V E → Prop
  /-- How a call may halt that may go a number of levels deep. -/
  halts : Nat → Call V → Halt → Prop
  /-- What comes of a call that was made in a world. -/
  answers : Call V → World V E → Reply V → World V E → Prop

/-- The promises are kept of answers to calls, which may halt in some ways. -/
def Contract.KeptBy (K : Contract V E) (answer : Call V → World V E → Run V E (Reply V)) (halts : Halt → Prop) : Prop :=
  ∀ request w, K.asks request w → (answer request w).Meets halts (K.answers request w)

/-- The promises are kept of calls that may go a number of levels deep. -/
def Contract.Kept [Hashed V] (K : Contract V E) (depth : Nat) : Prop :=
  ∀ request w, K.asks request w →
    (Call.answer depth request w).Meets (K.halts depth request) (K.answers request w)

/-- Promises are kept if what a call does keeps them, given that they are kept of the calls that it
makes in turn. -/
theorem Contract.kept [Hashed V] {K : Contract V E}
    (hzero : ∀ request w, K.asks request w → K.halts 0 request .tooDeep)
    (hbody : ∀ depth request w, K.Kept depth → K.asks request w →
      (request.body.run (Call.answer depth) w).Meets (K.halts (depth + 1) request) (K.answers request w))
    (depth : Nat) : K.Kept depth := by
  induction depth with
  | zero => exact hzero
  | succ depth ih => exact fun request w hasks => hbody depth request w ih hasks

end Injection

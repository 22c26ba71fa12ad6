import Injection.Dependency

/-!
# What definitions need

The dependencies of a provider function are a fixed list of needs, however they are put together:
objects of a type, with or without a name, that are required or optional. What a definition comes to
is determined by how its needs are met. It is stated as a bargain: if requests are replied to as
promised, the definition asks for nothing else and ends as promised.
-/

namespace Injection

variable {V E α β : Type}

/-- The program makes requests only through its context and only for keys that `asks` says, and ends
with an outcome of which `ends` is true if its requests are replied to as `replies` says. -/
def Program.Honors (asks : Key → Prop) (replies : Key → Reply V → Prop) (ends : Outcome V → Prop) :
    Program V E → Prop
  | .done outcome => ends outcome
  | .request key _ next => asks key ∧ ∀ reply, replies key reply → (next reply).Honors asks replies ends
  | .start _ _ _ _ | .forward _ _ _ | .share _ _ _ => False
  | .make type _ next => ∀ object, object.type = type → (next object).Honors asks replies ends
  | .touch _ next => ∀ before, (next before).Honors asks replies ends
  | .report _ next => next.Honors asks replies ends
  | .meet _ next => next.Honors asks replies ends

/-- The action does its part, if what comes after it does for the results that it may yield. -/
def Action.Honors (asks : Key → Prop) (replies : Key → Reply V → Prop) (ends : Outcome V → Prop)
    (yields : α → Prop) (action : Action V E α) : Prop :=
  ∀ next, (∀ a, yields a → (next a).Honors asks replies ends) → (action next).Honors asks replies ends

/-- The action makes no requests and yields only results of which `yields` is true. -/
def Action.Provides (yields : α → Prop) (action : Action V E α) : Prop :=
  ∀ asks replies ends, action.Honors asks replies ends yields

/-- One argument of a provider function that is requested from the context. -/
inductive Need where
  /-- An object of a type. -/
  | inject (type : TypeInfo)
  /-- An object of a type under a name. -/
  | injectNamed (type : TypeInfo) (name : String)
  /-- An object of a type, if anything provides it. -/
  | injectOptional (type : TypeInfo)
deriving DecidableEq

namespace Need

/-- The query that is asked for a need. -/
def query : Need → Query V
  | inject type => .get type []
  | injectNamed type name => .getNamed type (.name name) []
  | injectOptional type => .getOptional type

/-- The key that is requested for a need. -/
def key : Need → Key
  | inject type => .of type
  | injectNamed type name => .named type (.name name)
  | injectOptional type => (Key.of type).optional

/-- A need is queried under its key. -/
theorem query_key (need : Need) : (need.query : Query V).key = need.key := by
  cases need <;> rfl

/-- The need is met by one of the replies. -/
def Met (replies : Key → Reply V → Prop) (need : Need) : Prop :=
  ∃ reply answer, replies need.key reply ∧ need.query.accept reply = .ok answer

/-- One of the replies to the need is a failure, or is taken for one. -/
def Fails (replies : Key → Reply V → Prop) (need : Need) (e : ResolveError) : Prop :=
  ∃ reply, replies need.key reply ∧ need.query.accept reply = .error e

end Need

/-- The dependencies are a list of needs, to be requested in order. -/
inductive Dependency.Lists : {α : Type} → List Need → Dependency V E α → Prop
  | nothing : Lists [] nothing
  | inject (type : TypeInfo) : Lists [.inject type] (inject type)
  | injectNamed (type : TypeInfo) (name : String) : Lists [.injectNamed type name] (injectNamed type name)
  | injectOptional (type : TypeInfo) : Lists [.injectOptional type] (injectOptional type)
  | map {α β : Type} {needs : List Need} {dependency : Dependency V E α} (f : α → β) :
    Lists needs dependency → Lists needs (dependency.map f)
  | both {α β : Type} {needs needs' : List Need} {first : Dependency V E α} {second : Dependency V E β} :
    Lists needs first → Lists needs' second → Lists (needs ++ needs') (first.both second)

section Honors

variable {asks : Key → Prop} {replies : Key → Reply V → Prop} {ends : Outcome V → Prop}

/-- Actions one after the other honor the needs if each of them does, knowing what the one before it yields. -/
theorem Action.Honors.bind {yields : α → Prop} {yields' : β → Prop} {action : Action V E α} {f : α → Action V E β}
    (h : action.Honors asks replies ends yields) (hf : ∀ a, yields a → (f a).Honors asks replies ends yields') :
    (action >>= f).Honors asks replies ends yields' :=
  fun next hnext => h _ fun a ha => hf a ha next hnext

/-- Yielding something does its part, for it requests nothing. -/
theorem Action.honors_pure {yields : α → Prop} {a : α} (h : yields a) :
    (pure a : Action V E α).Honors asks replies ends yields :=
  fun _ hnext => hnext a h

/-- Reporting an event does its part, for it requests nothing. -/
theorem Action.honors_report (event : Event) :
    (Action.report event : Action V E Unit).Honors asks replies ends fun _ => True :=
  fun _ hnext => hnext () trivial

/-- A query yields what it accepts of the replies to it. -/
theorem Query.inContext_honors {q : Query V} (hasks : asks q.key) :
    (q.inContext : Action V E (Reply V)).Honors asks replies ends fun accepted =>
      ∃ reply, replies q.key reply ∧ q.accept reply = accepted := by
  intro next hnext
  refine ⟨hasks, fun reply hreply => ?_⟩
  have hresult := hnext (q.accept reply) ⟨reply, hreply, rfl⟩
  change (q.receive reply next).Honors asks replies ends
  unfold Query.receive
  generalize q.accept reply = accepted at hresult
  rcases reply with e | _ | object <;> cases accepted <;> exact hresult

/-- A query that insists on a value does not accept its absence. -/
theorem Query.accept_ne_none {q : Query V} {type : TypeInfo} (h : q.expects = .required type) (reply : Reply V) :
    q.accept reply ≠ .ok none := by
  unfold accept
  rw [h]
  cases reply with
  | error e => simp
  | ok answer =>
    cases answer with
    | none => simp
    | some object =>
      dsimp only
      split <;> simp

/-- What obtaining dependencies comes to: all needs are met, or one of them fails. -/
def Need.Come (replies : Key → Reply V → Prop) (needs : List Need) : Except ResolveError α → Prop
  | .ok _ => ∀ need ∈ needs, need.Met replies
  | .error e => ∃ need ∈ needs, need.Fails replies e

namespace Dependency

/-- A need comes to what its query accepts. -/
theorem come_accept {need : Need} {reply : Reply V} (hreply : replies need.key reply) :
    Need.Come replies [need] (need.query.accept reply) := by
  cases haccept : need.query.accept reply with
  | error e => exact ⟨need, List.mem_singleton.mpr rfl, reply, hreply, haccept⟩
  | ok answer =>
    intro other hother
    obtain rfl := List.mem_singleton.mp hother
    exact ⟨reply, answer, hreply, haccept⟩

/-- A required need comes to what its query accepts. -/
theorem come_present {need : Need} {type : TypeInfo} (hrequired : (need.query : Query V).expects = .required type)
    {reply : Reply V} (hreply : replies need.key reply) (key : Key) :
    Need.Come replies [need] (present key (need.query.accept reply)) := by
  have hcome := come_accept hreply
  have hsome := Query.accept_ne_none hrequired reply
  generalize need.query.accept reply = accepted at hcome hsome
  match accepted, hcome with
  | .error e, hcome => exact hcome
  | .ok (some object), hcome => exact hcome
  | .ok none, _ => exact absurd rfl hsome

/-- Listed dependencies ask for what is listed, and come to what their needs come to. -/
theorem Lists.honors {needs : List Need} {dependency : Dependency V E α} (h : Lists needs dependency)
    (hasks : ∀ need ∈ needs, asks need.key) (context : Context V) :
    (dependency context).Honors asks replies ends (Need.Come replies needs) := by
  have hquery (need : Need) (hneed : asks need.key) :
      (need.query.inContext : Action V E (Reply V)).Honors asks replies ends fun accepted =>
        ∃ reply, replies need.key reply ∧ need.query.accept reply = accepted := by
    rw [← need.query_key (V := V)] at hneed ⊢
    exact Query.inContext_honors hneed
  induction h with
  | nothing => exact Action.honors_pure fun need hneed => by cases hneed
  | inject type =>
    apply (Action.honors_report _).bind
    intro _ _
    refine (hquery (.inject type) (hasks _ (List.mem_singleton.mpr rfl))).bind fun accepted haccepted => ?_
    obtain ⟨reply, hreply, rfl⟩ := haccepted
    exact Action.honors_pure (come_present rfl hreply _)
  | injectNamed type name =>
    apply (Action.honors_report _).bind
    intro _ _
    refine (hquery (.injectNamed type name) (hasks _ (List.mem_singleton.mpr rfl))).bind fun accepted haccepted => ?_
    obtain ⟨reply, hreply, rfl⟩ := haccepted
    exact Action.honors_pure (come_present rfl hreply _)
  | injectOptional type =>
    apply (Action.honors_report _).bind
    intro _ _ next hnext
    refine hquery (.injectOptional type) (hasks _ (List.mem_singleton.mpr rfl)) next fun accepted haccepted => ?_
    obtain ⟨reply, hreply, rfl⟩ := haccepted
    exact hnext _ (come_accept hreply)
  | map f _ ih =>
    refine (ih hasks).bind fun result hresult => Action.honors_pure ?_
    cases result <;> exact hresult
  | @both _ _ needs needs' _ _ _ _ ih ih' =>
    apply (ih fun need hneed => hasks need (List.mem_append_left _ hneed)).bind
    intro result hresult
    cases result with
    | error e =>
      obtain ⟨need, hneed, hfails⟩ := hresult
      exact Action.honors_pure ⟨need, List.mem_append_left _ hneed, hfails⟩
    | ok first =>
      refine (ih' fun need hneed => hasks need (List.mem_append_right _ hneed)).bind fun result' hresult' =>
        Action.honors_pure ?_
      cases result' with
      | error e =>
        obtain ⟨need, hneed, hfails⟩ := hresult'
        exact ⟨need, List.mem_append_right _ hneed, hfails⟩
      | ok second =>
        intro need hneed
        rcases List.mem_append.mp hneed with hfirst | hsecond
        · exact hresult need hfirst
        · exact hresult' need hsecond

/-- Dependencies that are listed each are listed all in order. -/
theorem lists_all {ι : Type} (need : ι → Need) {dependency : ι → Dependency V E α}
    (h : ∀ i, Lists [need i] (dependency i)) (is : List ι) : Lists (is.map need) (all (is.map dependency)) := by
  induction is with
  | nil => exact Lists.nothing.map fun _ => []
  | cons i rest ih => exact ((h i).both ih).map _

end Dependency

/-- A definition with listed dependencies asks for what is listed. It ends with an object of its type
if all needs are met, or else as one of them, or the provider, fails. -/
theorem Definition.ofProvider_honors {type : TypeId} {needs : List Need} {dependencies : Dependency V E α}
    (hlists : dependencies.Lists needs) (hasks : ∀ need ∈ needs, asks need.key)
    {provider : α → Action V E (Except String V)} {yields : Except String V → Prop}
    (hprovider : ∀ a, (provider a).Provides yields)
    (hmade : (∀ need ∈ needs, need.Met replies) → ∀ object, object.type = type → ends (.ok object))
    (hfailed : ∀ need ∈ needs, ∀ e, need.Fails replies e → ends (.error (.dependency e)))
    (hrefused : ∀ message, yields (.error message) → ends (.error (.provider message))) (context : Context V) :
    (Definition.ofProvider type dependencies provider context).Honors asks replies ends := by
  apply hlists.honors hasks context
  intro result hresult
  cases result with
  | error e =>
    obtain ⟨need, hneed, hfails⟩ := hresult
    exact hfailed need hneed e hfails
  | ok a =>
    apply hprovider a
    intro outcome houtcome
    cases outcome with
    | error message => exact hrefused message houtcome
    | ok value => exact hmade hresult

end Honors

end Injection

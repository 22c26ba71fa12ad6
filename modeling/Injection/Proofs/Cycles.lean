import Injection.Proofs.Interleaving
import Injection.Proofs.Justification

/-!
# Reported cycles

A cyclic dependency is reported for a key whose site is on the path already. Sites are not bindings: a
site may be bound in several components, and what a component finds for a key of the site need not be
what was found for it elsewhere. So what is certain about a reported cycle is that a stored binding
leads to one whose definition requests a key of the first one's site; it depends on itself if it is
found for that key.
-/

namespace Injection

variable {V E α : Type}

/-- The program requests a key, for some of the replies to what it does before. -/
def Program.Requests (wanted : Key) : Program V E → Prop
  | .done _ => False
  | .request key _ next => key = wanted ∨ ∃ reply, (next reply).Requests wanted
  | .start _ _ _ next => ∃ reply, (next reply).Requests wanted
  | .forward _ _ next => ∃ reply, (next reply).Requests wanted
  | .share _ body next => body.Requests wanted ∨ ∃ reply, (next reply).Requests wanted
  | .make type _ next => ∃ object, object.type = type ∧ (next object).Requests wanted
  | .touch _ next => ∃ before, (next before).Requests wanted
  | .report _ next => next.Requests wanted
  | .meet _ next => next.Requests wanted

/-- The definition of a stored binding requests a key in its owner's context. -/
def Stored.Requests (stored : Stored V E) (key : Key) : Prop :=
  ∃ context, context.component = stored.owner ∧ (stored.binding.definition context).Requests key

/-- The error comes down to a cyclic dependency only with one of the given paths. -/
def ResolveError.CyclesIn (cycles : List Key → Prop) (e : ResolveError) : Prop :=
  ∀ path, e.rootCause = .cyclicDependency path → cycles path

/-- The program makes requests only through its context, and comes down to a cyclic dependency only if
one of its requests does. -/
def Program.Relays (program : Program V E) : Prop :=
  ∀ cycles : List Key → Prop, program.Honors (fun _ => True)
    (fun _ reply => ∀ e, reply = .error e → e.CyclesIn cycles)
    fun outcome => ∀ e, outcome = .error e → e.toResolveError.CyclesIn cycles

/-- The definitions of all stored bindings relay cyclic dependencies. -/
def World.Relays (w : World V E) : Prop :=
  ∀ c, ∀ binding ∈ w.bindings c, ∀ context, (binding.definition context).Relays

/-- A program may be promised more and held to less; it asks for what it requests. -/
theorem Program.Honors.mono {asks asks' : Key → Prop} {replies replies' : Key → Reply V → Prop}
    {ends ends' : Outcome V → Prop} {program : Program V E} (h : program.Honors asks replies ends)
    (hasks : ∀ key, program.Requests key → asks' key) (hreplies : ∀ key reply, replies' key reply → replies key reply)
    (hends : ∀ outcome, ends outcome → ends' outcome) : program.Honors asks' replies' ends' := by
  induction program with
  | done outcome => exact hends outcome h
  | request key parameters next ih =>
    refine ⟨hasks key (Or.inl rfl), fun reply hreply => ih reply (h.2 reply (hreplies key reply hreply)) ?_⟩
    exact fun wanted hwanted => hasks wanted (Or.inr ⟨reply, hwanted⟩)
  | start component key parameters next ih => exact h.elim
  | forward owner key next ih => exact h.elim
  | share entry body next ihbody ih => exact h.elim
  | make type value next ih =>
    exact fun object hobject =>
      ih object (h object hobject) fun wanted hwanted => hasks wanted ⟨object, hobject, hwanted⟩
  | touch change next ih =>
    exact fun before => ih before (h before) fun wanted hwanted => hasks wanted ⟨before, hwanted⟩
  | report event next ih => exact ih h hasks
  | meet gate next ih => exact ih h hasks

/-- A program requests only what it asks for whatever it is replied to. -/
theorem Program.Honors.asks_of_requests {asks : Key → Prop} {ends : Outcome V → Prop} {program : Program V E}
    (h : program.Honors asks (fun _ _ => True) ends) {key : Key} (hrequests : program.Requests key) : asks key := by
  induction program with
  | done outcome => exact hrequests.elim
  | request wanted parameters next ih =>
    rcases hrequests with rfl | ⟨reply, hreply⟩
    · exact h.1
    · exact ih reply (h.2 reply trivial) hreply
  | start component key parameters next ih => exact h.elim
  | forward owner key next ih => exact h.elim
  | share entry body next ihbody ih => exact h.elim
  | make type value next ih =>
    obtain ⟨object, hobject, hnext⟩ := hrequests
    exact ih object (h object hobject) hnext
  | touch change next ih =>
    obtain ⟨before, hbefore⟩ := hrequests
    exact ih before (h before) hbefore
  | report event next ih => exact ih h hrequests
  | meet gate next ih => exact ih h hrequests

/-- What a query takes for a failure is no cyclic dependency. -/
theorem Query.cyclesIn_of_accept {q : Query V} {reply : Reply V} {e : ResolveError} {cycles : List Key → Prop}
    (h : q.accept reply = .error e) (hreply : ∀ e, reply = .error e → e.CyclesIn cycles) : e.CyclesIn cycles := by
  have hother {e' : ResolveError} (heq : (.error e' : Reply V) = .error e)
      (he : ∀ path, e'.rootCause ≠ .cyclicDependency path) : e.CyclesIn cycles := by
    obtain rfl := Except.error.inj heq
    exact fun path hpath => absurd hpath (he path)
  unfold accept at h
  split at h
  · exact Except.error.inj h ▸ hreply _ rfl
  · split at h
    · exact hother h fun path => by simp [ResolveError.rootCause]
    · cases h
  · split at h
    · cases h
    all_goals
      split at h
      · cases h
      · exact hother h fun path => by simp [ResolveError.rootCause]

/-- Definitions with listed dependencies relay cyclic dependencies, if their providers make no
requests of their own. -/
theorem Definition.ofProvider_relays (type : TypeId) {needs : List Need} {dependencies : Dependency V E α}
    (hlists : dependencies.Lists needs) {provider : α → Action V E (Except String V)}
    (hprovider : ∀ a, (provider a).Provides fun _ => True) (context : Context V) :
    (Definition.ofProvider type dependencies provider context).Relays := by
  intro cycles
  refine ofProvider_honors hlists (fun _ _ => trivial) hprovider (by simp) ?_ ?_ context
  · intro need _ e hfails
    obtain ⟨reply, hreply, haccept⟩ := hfails
    rintro _ ⟨⟩
    exact (Query.cyclesIn_of_accept haccept hreply : e.CyclesIn cycles)
  · intro message _
    rintro _ ⟨⟩ path hpath
    simp [DefinitionError.toResolveError, ResolveError.rootCause] at hpath

/-- Such definitions request what is listed. -/
theorem Definition.listed_of_requests {type : TypeId} {needs : List Need} {dependencies : Dependency V E α}
    (hlists : dependencies.Lists needs) {provider : α → Action V E (Except String V)}
    (hprovider : ∀ a, (provider a).Provides fun _ => True) {context : Context V} {key : Key}
    (h : (Definition.ofProvider type dependencies provider context).Requests key) : ∃ need ∈ needs, need.key = key := by
  have hhonors : (Definition.ofProvider type dependencies provider context).Honors
      (fun key => ∃ need ∈ needs, need.key = key) (fun _ _ => True) fun _ => True :=
    ofProvider_honors hlists (fun need hneed => ⟨need, hneed, rfl⟩) hprovider (by simp) (by simp) (by simp) context
  exact hhonors.asks_of_requests h

variable {w₀ : World V E}

/-- Every cyclic dependency that a request comes down to has a path that comes back to a site. -/
theorem World.Relays.explains (h : w₀.Relays) (c : ComponentId) (key : Key) :
    Judgement.Explains ⟨fun _ _ => True, fun e => e.CyclesIn (w₀.Looped Stored.Requests c key)⟩ w₀ Stored.Requests c
      key where
  looped path c key visited htrail hvisited hsite path' hpath' := by
    obtain rfl : path ++ [key] = path' := by simpa [ResolveError.rootCause] using hpath'
    exact htrail.looped hvisited hsite
  missing path c key _ _ _ path' hpath' := by simp [ResolveError.rootCause] at hpath'
  bare path c key stored _ _ _ path' hpath' := by simp [ResolveError.rootCause] at hpath'
  made path c key stored context _ hfound hcontext := by
    have hrelays := h stored.owner stored.binding (World.mem_of_found? hfound).1 context
    apply (hrelays _).mono
    · exact fun wanted hwanted => ⟨context, hcontext, hwanted⟩
    · rintro wanted _ hanswered e rfl
      exact hanswered
    · intro outcome hend
      cases outcome with
      | ok object => trivial
      | error e => exact hend e rfl

/-- A request that comes down to a cyclic dependency, after whatever requests, has a path whose last key
is requested by the definition of a stored binding; and that binding was led to by one for the last
key's site, which in turn is what the request is served by or what that leads to. It depends on itself
if it is what is found for the last key. -/
theorem World.cycle_revisits [Hashed V] (hpristine : w₀.Pristine) (hexplicit : w₀.Explicit) (hrelays : w₀.Relays)
    {w w' : World V E} {c : ComponentId} {q : Query V} {depth : Nat} {e : ResolveError} {path : List Key}
    (hhistory : w₀.History w) (hrun : w.run depth (q.task c) = .ok (.error e, w'))
    (hcause : e.rootCause = .cyclicDependency path) :
    ∃ before key start stored last, path = before ++ [key] ∧ w₀.found? q.key c = some start ∧
      w₀.LeadsTo Stored.Requests start stored ∧ stored.binding ∈ w₀.bindings stored.owner ∧
        stored.binding.key.site = key.site ∧ w₀.LeadsTo Stored.Requests stored last ∧ last.Requests key ∧
          (w₀.found? key last.owner = some stored →
            Relation.TransGen (w₀.DependsOn Stored.Requests) stored stored) := by
  have htracks := hhistory.tracks hpristine hexplicit fun c key => ⟨_, _, hrelays.explains c key⟩
  obtain ⟨-, answered, haccept, hanswered⟩ :=
    (Judgement.task_meets hpristine.keyed hexplicit (hrelays.explains c q.key) htracks depth).of_ok hrun
  have hcycles : e.CyclesIn (w₀.Looped Stored.Requests c q.key) := by
    refine Query.cyclesIn_of_accept haccept.symm ?_
    rintro _ rfl
    exact hanswered
  obtain ⟨before, key, start, stored, last, hpath, -, hstart, hleads, hmem, hsite, hlast, hasks⟩ := hcycles path hcause
  exact ⟨before, key, start, stored, last, hpath, hstart, hleads, hmem, hsite, hlast, hasks,
    fun hfound => .tail' hlast ⟨key, hasks, hfound⟩⟩

/-! ### A site that is bound twice -/

/-- The bindings of small worlds list what they need. -/
theorem Binding.nth_lists (needs : List UInt64) :
    (Dependency.all (needs.map fun k => .inject (.nth k)) : Dependency Unit Unit _).Lists
      (needs.map fun k => .inject (.nth k)) :=
  Dependency.lists_all _ (fun k => .inject (.nth k)) needs

/-- The bindings of small worlds relay the errors of what they need. -/
theorem Binding.nth_relays (n : UInt64) (needs : List UInt64) (context : Context Unit) :
    ((nth n needs).definition context).Relays :=
  Definition.ofProvider_relays _ (nth_lists needs) (fun _ _ _ _ => Action.honors_pure trivial) context

/-- The bindings of small worlds request what they need, and nothing else. -/
theorem Binding.nth_requests {owner : ComponentId} {n : UInt64} {needs : List UInt64} {key : Key}
    (h : (Stored.mk owner (nth n needs)).Requests key) : ∃ k ∈ needs, key = .of (.nth k) := by
  obtain ⟨context, -, hrequests⟩ := h
  obtain ⟨need, hneed, rfl⟩ :=
    Definition.listed_of_requests (nth_lists needs) (fun _ _ _ _ => Action.honors_pure trivial) hrequests
  obtain ⟨k, hk, rfl⟩ := List.mem_map.mp hneed
  exact ⟨k, hk, rfl⟩

/-- A parent that binds two types, the second of which needs the first, and a child that binds the first
type anew, needing the second. -/
def World.shadowed : World Unit Unit :=
  { World.initial () with
    components := [⟨[], [], [.nth 0 [], .nth 1 [0]], .default, true⟩, ⟨[], [0], [.nth 0 [1]], .default, true⟩] }

namespace World

/-- Nothing has been made in the shadowed world yet. -/
theorem pristine_shadowed : shadowed.Pristine := .of_components () (by decide) (by decide)

/-- The shadowed world has no factories. -/
theorem explicit_shadowed : shadowed.Explicit := by
  intro c
  match c with
  | 0 | 1 | _ + 2 => rfl

/-- All bindings of the shadowed world relay the errors of what they need. -/
theorem relays_shadowed : shadowed.Relays := by
  intro c binding hbinding
  match c, hbinding with
  | 0, hbinding =>
    rcases List.mem_cons.mp hbinding with rfl | hbinding
    · exact Binding.nth_relays 0 []
    · exact List.mem_singleton.mp hbinding ▸ Binding.nth_relays 1 [0]
  | 1, hbinding => exact List.mem_singleton.mp hbinding ▸ Binding.nth_relays 0 [1]

/-- The path of the child's request for the first type comes back to the type, which the second type
requests at the parent. -/
theorem cycle_revisits_shadowed :
    ∃ (e : ResolveError) (w : World Unit Unit),
      shadowed.run 4 ((Query.get (.nth 0) []).task 1) = .ok (.error e, w) ∧
        e.rootCause = .cyclicDependency [.of (.nth 0), .of (.nth 1), .of (.nth 0)] ∧
        ∃ start stored last, shadowed.found? (.of (.nth 0)) 1 = some start ∧
          shadowed.LeadsTo Stored.Requests start stored ∧ stored.binding.key.site = (Key.of (.nth 0)).site ∧
            shadowed.LeadsTo Stored.Requests stored last ∧ last.Requests (.of (.nth 0)) := by
  obtain ⟨e, w, hrun, hcause⟩ : ∃ (e : ResolveError) (w : World Unit Unit),
      shadowed.run 4 ((Query.get (.nth 0) []).task 1) = .ok (.error e, w) ∧
        e.rootCause = .cyclicDependency [.of (.nth 0), .of (.nth 1), .of (.nth 0)] := ⟨_, _, rfl, rfl⟩
  obtain ⟨before, key, start, stored, last, hpath, hstart, hleads, -, hsite, hlast, hrequests, -⟩ :=
    cycle_revisits pristine_shadowed explicit_shadowed relays_shadowed .refl hrun hcause
  obtain rfl : Key.of (.nth 0) = key := by simpa using congrArg List.getLast? hpath
  exact ⟨e, w, hrun, hcause, start, stored, last, hstart, hleads, hsite, hlast, hrequests⟩

/-- The child's request for the first type is refused as cyclic, although nothing that it leads to
depends on itself: the second type is served the parent's binding of the first. -/
theorem cycle_without_dependence :
    shadowed.Pristine ∧ shadowed.Explicit ∧ shadowed.Relays ∧
      (∃ (e : ResolveError) (w : World Unit Unit) (path : List Key),
        shadowed.run 4 ((Query.get (.nth 0) []).task 1) = .ok (.error e, w) ∧
          e.rootCause = .cyclicDependency path) ∧
      ∀ start, shadowed.found? (.of (.nth 0)) 1 = some start → shadowed.Acyclic Stored.Requests start := by
  refine ⟨pristine_shadowed, explicit_shadowed, relays_shadowed, ⟨_, _, _, rfl, rfl⟩, fun start hstart => ?_⟩
  let child : Stored Unit Unit := ⟨1, .nth 0 [1]⟩
  let second : Stored Unit Unit := ⟨0, .nth 1 [0]⟩
  let first : Stored Unit Unit := ⟨0, .nth 0 []⟩
  obtain rfl : start = child := (Option.some.inj hstart).symm
  have hdepends {stored other : Stored Unit Unit} (hdepends : shadowed.DependsOn Stored.Requests stored other) :
      (stored = child → other = second) ∧ (stored = second → other = first) ∧ stored ≠ first := by
    obtain ⟨key, hrequests, hfound⟩ := hdepends
    refine ⟨?_, ?_, ?_⟩
    · rintro rfl
      obtain ⟨k, hk, rfl⟩ := Binding.nth_requests hrequests
      obtain rfl := List.mem_singleton.mp hk
      exact (Option.some.inj hfound).symm
    · rintro rfl
      obtain ⟨k, hk, rfl⟩ := Binding.nth_requests hrequests
      obtain rfl := List.mem_singleton.mp hk
      exact (Option.some.inj hfound).symm
    · rintro rfl
      obtain ⟨k, hk, -⟩ := Binding.nth_requests hrequests
      cases hk
  have hreached {stored : Stored Unit Unit} (hleads : shadowed.LeadsTo Stored.Requests child stored) :
      stored = child ∨ stored = second ∨ stored = first := by
    induction hleads with
    | refl => exact .inl rfl
    | tail _ hnext ih =>
      obtain ⟨hchild, hsecond, hfirst⟩ := hdepends hnext
      rcases ih with h | h | h
      · exact .inr (.inl (hchild h))
      · exact .inr (.inr (hsecond h))
      · exact absurd h hfirst
  apply acyclic_of_rank fun stored => 2 * stored.owner + stored.binding.key.type.id.code.toNat
  intro stored other hleads hnext
  obtain ⟨hchild, hsecond, hfirst⟩ := hdepends hnext
  rcases hreached hleads with rfl | rfl | rfl
  · obtain rfl := hchild rfl
    decide
  · obtain rfl := hsecond rfl
    decide
  · exact absurd rfl hfirst

end World

end Injection

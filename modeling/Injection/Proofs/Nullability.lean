import Injection.Proofs.Fallback

/-!
# Requests that are content with the absence of a value

A key and its nullable form are looked for in the same places. Unless something is stored under the nullable form
itself, a request for the one and a request for the other are served by the same stored binding, or fail with the
same error of a factory, or come to nothing, which is an error for the one and an answer for the other. A binding
that is stored under a nullable key, in turn, is never what a required key is located at.
-/

namespace Injection

variable {V E : Type}

section Selection

variable {w w' : World V E} {c d : ComponentId} {key : Key} {resolution : Resolution}

/-- Where nothing is stored under the nullable form, whatever serves a required key serves its nullable form. -/
theorem World.serving?_optional (hrequired : key.nullable = false)
    (hnone : w.binding? d key.optional.identity = none) : w.serving? d key.optional = w.serving? d key := by
  have hsame : key.optional.required = key := by
    cases key
    simp_all [Key.optional, Key.required]
  rw [serving?_eq, serving?_eq, hnone, hsame, hrequired]
  rfl

/-- What is found depends only on what serves the key on the way up. -/
theorem World.foundWithin?_congr {key' : Key} (h : ∀ d, w.Above c d → w.serving? d key' = w.serving? d key)
    (generations : Nat) : w.foundWithin? key' generations c = w.foundWithin? key generations c := by
  induction generations generalizing c with
  | zero => rfl
  | succ generations ih =>
    have hparents : ∀ parent ∈ w.livingParents c,
        w.foundWithin? key' generations parent = w.foundWithin? key generations parent :=
      fun parent hparent => ih fun d hd => h d (.head hparent hd)
    simp only [foundWithin?, h c .refl, findSome?_congr hparents]

/-- A key and its nullable form are found alike, unless something is stored under the nullable form. -/
theorem World.found?_optional (hrequired : key.nullable = false)
    (hnone : ∀ d, w.Above c d → w.binding? d key.optional.identity = none) :
    w.found? key.optional c = w.found? key c :=
  foundWithin?_congr (fun d hd => serving?_optional hrequired (hnone d hd)) (c + 1)

/-- A catalog that declines has changed nothing. -/
theorem Catalog.eq_of_declined {catalog : Catalog V E} (h : catalog.factory.Replies resolution key c w (.ok none) w') :
    w' = w := by
  have hended {u : World V E} {reply : SynthesisReply V E}
      (hrun : (Task.done reply).run (fun _ _ => .error .tooDeep) u = .ok (.ok none, w')) :
      reply = .ok none ∧ w' = u := by
    obtain ⟨rfl, rfl⟩ := Prod.mk.inj (Except.ok.inj hrun)
    exact ⟨rfl, rfl⟩
  obtain ⟨reply, between, hconsult, hrest⟩ := Task.run_bind_eq_ok (h fun _ _ => .error .tooDeep)
  obtain ⟨rfl, rfl⟩ := hended hrest
  -- Everywhere else a catalog reports what it has synthesized, or fails.
  unfold Resolution.consult at hconsult
  split at hconsult
  · exact (hended hconsult).2
  · split at hconsult
    · exact (hended hconsult).2
    · split at hconsult
      · cases (hended hconsult).1
      · split at hconsult
        · cases (hended hconsult).1
        · rw [Task.run_read] at hconsult
          split at hconsult
          · cases (hended hconsult).1
          · split at hconsult
            · cases (hended hconsult).1
            · rw [Task.run_emit] at hconsult
              obtain ⟨stored, after, -, hend⟩ := Task.run_bind_eq_ok hconsult
              cases (hended hend).1

/-- A key that catalogs locate at nothing leaves components and cells as they were. -/
theorem Resolution.Locates.unchanged_of_none {asked : List (Factory V E)}
    (h : Locates resolution key c w asked (.ok none) w') (hcatalogs : w.FromCatalogs) : w.Coincides w' := by
  generalize hlocated : (.ok none : Except ResolveError (Option (Stored V E))) = located at h
  cases h with
  | found _ _ => cases hlocated
  | @inquired _ reply u _ _ hinquiry hw' =>
    match reply, hinquiry, hw', hlocated with
    | .ok none, hinquiry, hw', _ =>
      have hsame : u = w := by
        refine hinquiry.preserves_of_none (P := fun v => v = w) (fun factory hfactory v v' hdeclined hv => ?_) rfl
        obtain ⟨catalog, rfl⟩ := hcatalogs c factory (List.mem_reverse.mp hfactory)
        exact (Catalog.eq_of_declined hdeclined).trans hv
      exact hsame ▸ hw'

end Selection

variable [Hashed V]

/-- Nothing is the answer only where nothing is located and the key is content with that. -/
theorem Resolution.conclude_eq_none {path : List Key} {resolution : Resolution} {key : Key}
    {parameters : Parameters V} {located : Except ResolveError (Option (Stored V E))} {u u' : World V E}
    {answer : Call V → World V E → Run V E (Reply V)}
    (h : (conclude path resolution key parameters located).run answer u = .ok (.ok none, u')) :
    located = .ok none ∧ key.nullable = true := by
  match located, h with
  | .error e, h => cases (Prod.mk.inj (Except.ok.inj h)).1
  | .ok none, h =>
    obtain ⟨v, -, hnone⟩ := conclude_none path resolution key parameters u
    have hreply := (Prod.mk.inj (Except.ok.inj ((hnone answer).symm.trans h))).1
    refine ⟨rfl, ?_⟩
    by_contra hnullable
    simp [hnullable] at hreply
  | .ok (some stored), h =>
    obtain ⟨result, made, -, hdeliver⟩ := Task.run_bind_eq_ok h
    cases result <;> cases (Prod.mk.inj (Except.ok.inj hdeliver)).1

/-- A required key and its nullable form are served alike at a component: both are located at the same, in worlds
that coincide. -/
structure World.ServesAlike (w : World V E) (c : ComponentId) (path : List Key) (resolution : Resolution)
    (key : Key) (parameters : Parameters V) (located : Except ResolveError (Option (Stored V E)))
    (u u' : World V E) : Prop where
  /-- What the required key is located at. -/
  required : ∀ answer, (Resolution.locate resolution key c).run answer
    (w.emit resolution.logger (.lookup key)) = .ok (located, u)
  /-- What the nullable form is located at. -/
  optional : ∀ answer, (Resolution.locate resolution key.optional c).run answer
    (w.emit resolution.logger (.lookup key.optional)) = .ok (located, u')
  coincides : u.Coincides u'
  /-- Both obtain the value of one stored binding, in contexts that differ in nothing but the key. -/
  selected : ∀ {stored}, located = .ok (some stored) → ∀ depth,
    Call.answer (depth + 1) (.resolve c path resolution key parameters) w =
      ((stored.obtain ⟨stored.owner, key, parameters, path ++ [key], resolution⟩).bind
        (Resolution.deliver resolution)).run (Call.answer depth) u ∧
    Call.answer (depth + 1) (.resolve c path resolution key.optional parameters) w =
      ((stored.obtain ⟨stored.owner, key.optional, parameters, path ++ [key.optional], resolution⟩).bind
        (Resolution.deliver resolution)).run (Call.answer depth) u'
  /-- Both fail with the error of a factory. -/
  failed : ∀ {e}, located = .error e → ∀ depth, ∃ v v', u.Coincides v ∧ u.Coincides v' ∧
    Call.answer (depth + 1) (.resolve c path resolution key parameters) w = .ok (.error e, v) ∧
      Call.answer (depth + 1) (.resolve c path resolution key.optional parameters) w = .ok (.error e, v')
  /-- The one fails for want of a binding, and the other comes to nothing. -/
  absent : located = .ok none → ∀ depth, ∃ v v', u.Coincides v ∧ u.Coincides v' ∧
    Call.answer (depth + 1) (.resolve c path resolution key parameters) w = .ok (.error (.unresolved key), v) ∧
      Call.answer (depth + 1) (.resolve c path resolution key.optional parameters) w = .ok (.ok none, v')
  /-- In no other case does the nullable form come to nothing. -/
  absent_iff : (∃ depth v, Call.answer depth (.resolve c path resolution key.optional parameters) w = .ok (.ok none, v)) ↔
    located = .ok none
  /-- Then catalogs leave all components and cells as they were. -/
  unchanged : located = .ok none → w.FromCatalogs → u.components = w.components ∧ u.cells = w.cells

/-- Where nothing is stored under the nullable form, a required key and its nullable form are served alike. -/
theorem World.exists_servesAlike {w : World V E} {c : ComponentId} {path : List Key} {key : Key}
    (hrequired : key.nullable = false) (hfresh : ∀ visited ∈ path, visited.site ≠ key.site)
    (hnone : ∀ d, w.Above c d → w.binding? d key.optional.identity = none) (resolution : Resolution)
    (parameters : Parameters V) :
    ∃ located u u', w.ServesAlike c path resolution key parameters located u u' := by
  have hlookup (asked : Key) : w.Coincides (w.emit resolution.logger (.lookup asked)) := w.coincides_emit _ _
  have hfound : (w.emit resolution.logger (.lookup key.optional)).found? key.optional c =
      (w.emit resolution.logger (.lookup key)).found? key c := by
    rw [World.found?, foundWithin?_of_components (hlookup _).components, ← World.found?,
      found?_optional hrequired hnone, World.found?, World.found?, foundWithin?_of_components (hlookup _).components]
  obtain ⟨asked, located, u, hlocate, hlocates⟩ :=
    Resolution.exists_locates resolution key c (w.emit resolution.logger (.lookup key))
  obtain ⟨asked', located', u', hlocate', hlocates'⟩ :=
    Resolution.exists_locates resolution key.optional c (w.emit resolution.logger (.lookup key.optional))
  have hcoincides := (hlookup key).symm.trans (hlookup key.optional)
  have hfresh' : ∀ visited ∈ path, visited.site ≠ key.optional.site := hfresh
  have hform : key.optional.required = key.required := rfl
  obtain ⟨-, rfl, hu⟩ := hlocates.agree hform hfound hcoincides hlocates'
  have hanswer (depth : Nat) : Call.answer (depth + 1) (.resolve c path resolution key parameters) w =
      (Resolution.conclude path resolution key parameters located').run (Call.answer depth) u :=
    Call.answer_resolve hfresh hlocate depth
  have hanswer' (depth : Nat) : Call.answer (depth + 1) (.resolve c path resolution key.optional parameters) w =
      (Resolution.conclude path resolution key.optional parameters located').run (Call.answer depth) u' :=
    Call.answer_resolve hfresh' hlocate' depth
  have habsent (hlocated : located' = .ok none) (depth : Nat) : ∃ v v', u.Coincides v ∧ u.Coincides v' ∧
      Call.answer (depth + 1) (.resolve c path resolution key parameters) w = .ok (.error (.unresolved key), v) ∧
        Call.answer (depth + 1) (.resolve c path resolution key.optional parameters) w = .ok (.ok none, v') := by
    subst hlocated
    obtain ⟨v, hv, hreply⟩ := Resolution.conclude_none path resolution key parameters u
    obtain ⟨v', hv', hreply'⟩ := Resolution.conclude_none path resolution key.optional parameters u'
    rw [hrequired] at hreply
    exact ⟨v, v', hv, hu.trans hv', (hanswer depth).trans (hreply _), (hanswer' depth).trans (hreply' _)⟩
  refine ⟨located', u, u', hlocate, hlocate', hu, ?_, ?_, habsent, ⟨?_, fun hlocated => ?_⟩, ?_⟩
  · rintro stored rfl depth
    exact ⟨hanswer depth, hanswer' depth⟩
  · rintro e rfl depth
    exact ⟨_, _, u.coincides_emit _ _, hu.trans (u'.coincides_emit _ _), hanswer depth, hanswer' depth⟩
  · rintro ⟨depth, v, hreply⟩
    cases depth with
    | zero => cases hreply
    | succ depth => exact (Resolution.conclude_eq_none ((hanswer' depth).symm.trans hreply)).1
  · obtain ⟨-, v', -, -, -, hreply⟩ := habsent hlocated 0
    exact ⟨1, v', hreply⟩
  · rintro rfl hcatalogs
    have hsame := (hlookup key).trans
      (hlocates.unchanged_of_none (hcatalogs.grows (.of_components (hlookup key).components)))
    exact ⟨hsame.components, hsame.cells⟩

/-- Resolving a required key never comes to nothing. -/
theorem Call.answer_ne_none {c : ComponentId} {path : List Key} {resolution : Resolution} {key : Key}
    {parameters : Parameters V} {w w' : World V E} (hrequired : key.nullable = false) (depth : Nat) :
    Call.answer depth (.resolve c path resolution key parameters) w ≠ .ok (.ok none, w') := by
  intro hreply
  cases depth with
  | zero => cases hreply
  | succ depth =>
    by_cases hfresh : ∀ visited ∈ path, visited.site ≠ key.site
    · obtain ⟨located, u, hlocate⟩ := (Resolution.locate_acts (V := V) (E := E) resolution key c).exists_run
        (w.emit resolution.logger (.lookup key))
      rw [Call.answer_resolve hfresh hlocate] at hreply
      exact Bool.false_ne_true (hrequired.symm.trans (Resolution.conclude_eq_none hreply).2)
    · have hany : path.any fun visited => visited.site = key.site := by simpa using hfresh
      change (Resolution.resolve c path resolution key parameters).run (Call.answer depth) w = _ at hreply
      unfold Resolution.resolve at hreply
      rw [Task.run_emit, if_pos hany] at hreply
      cases (Prod.mk.inj (Except.ok.inj hreply)).1

/-- Requests for a required key and for its nullable form agree: at a component below which, and at which, nothing is
stored under the nullable form, they are served alike. In any case the required key is never resolved to nothing, and
never located at a binding that is stored under a nullable key, whatever is stored where. -/
theorem Key.optional_agrees {key : Key} (hrequired : key.nullable = false) (w : World V E) (c : ComponentId)
    (path : List Key) (resolution : Resolution) (parameters : Parameters V) :
    ((∀ visited ∈ path, visited.site ≠ key.site) →
      (∀ d, w.Above c d → w.binding? d key.optional.identity = none) →
        ∃ located u u', w.ServesAlike c path resolution key parameters located u u') ∧
      (∀ depth w', Call.answer depth (.resolve c path resolution key parameters) w ≠ .ok (.ok none, w')) ∧
      ∀ answer stored w', (Resolution.locate resolution key c).run answer w = .ok (.ok (some stored), w') →
        stored.binding.key.nullable = false ∧
          w'.binding? stored.owner stored.binding.key.identity = some stored.binding := by
  refine ⟨fun hfresh hnone => World.exists_servesAlike hrequired hfresh hnone resolution parameters,
    fun depth w' => Call.answer_ne_none hrequired depth, fun answer stored w' hrun => ?_⟩
  obtain ⟨asked, hlocates⟩ := Resolution.Locates.of_run hrun
  obtain ⟨hstored, -, hkey⟩ := hlocates.stored
  exact ⟨hkey hrequired, hstored⟩

/-- Neither the parent nor the child stores anything. The first type is synthesized in the child for both requests,
which are made while another type is under construction. A type that the catalog does not know is an error for the
one and nothing for the other, and changes nothing. -/
theorem Key.optional_agrees_family :
    (∃ (stored : Stored Unit Unit) (u u' : World Unit Unit),
      World.family.ServesAlike 1 [.of (.nth 7)] ⟨4, none⟩ (.of (.nth 0)) [] (.ok (some stored)) u u' ∧ stored.owner = 1) ∧
      ∃ u u' : World Unit Unit,
        World.family.ServesAlike 1 [.of (.nth 7)] ⟨4, none⟩ (.of (.nth 2)) [] (.ok none) u u' ∧
          u.components = World.family.components ∧
          ∀ depth w', Call.answer depth (.resolve 1 [.of (.nth 7)] ⟨4, none⟩ (.of (.nth 2)) []) World.family ≠
            .ok (.ok none, w') := by
  have hnone (n : UInt64) (d : ComponentId) (hd : World.family.Above 1 d) :
      World.family.binding? d (Key.of (.nth n)).optional.identity = none := by
    rcases World.above_family hd with rfl | rfl <;> rfl
  have hrequired (n : UInt64) : (Key.of (.nth n)).nullable = false := rfl
  have hknown := Key.optional_agrees (hrequired 0) World.family 1 [.of (.nth 7)] ⟨4, none⟩ []
  have hunknown := Key.optional_agrees (hrequired 2) World.family 1 [.of (.nth 7)] ⟨4, none⟩ []
  constructor
  · obtain ⟨located, u, u', halike⟩ := hknown.1 (by decide) (hnone 0)
    obtain ⟨stored, v, hrun, howner⟩ : ∃ stored v, (Resolution.locate ⟨4, none⟩ (.of (.nth 0)) 1).run
        (fun _ _ => .error .tooDeep) World.family = .ok (.ok (some stored), v) ∧ stored.owner = 1 := ⟨_, _, rfl, rfl⟩
    obtain ⟨rfl, -⟩ := Prod.mk.inj (Except.ok.inj ((halike.required _).symm.trans hrun))
    exact ⟨stored, u, u', halike, howner⟩
  · obtain ⟨located, u, u', halike⟩ := hunknown.1 (by decide) (hnone 2)
    obtain ⟨v, hrun⟩ : ∃ v, (Resolution.locate ⟨4, none⟩ (.of (.nth 2)) 1).run
        (fun _ _ => .error .tooDeep) World.family = .ok (.ok none, v) := ⟨_, rfl⟩
    obtain ⟨rfl, -⟩ := Prod.mk.inj (Except.ok.inj ((halike.required _).symm.trans hrun))
    exact ⟨u, u', halike, (halike.unchanged rfl World.fromCatalogs_family).1, hunknown.2.1⟩

end Injection

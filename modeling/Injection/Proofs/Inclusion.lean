import Injection.Proofs.Composition

/-!
# What a refused registration leaves behind

A refused binding leaves the module as it was. To include another module is to register its bindings one after the
other, so what comes before the first refused one has been registered by then and stays; the refused one and what
comes after it have left nothing.
-/

namespace Injection

variable {V E : Type}

namespace Module

/-- The last one of some bindings under the key of an entry, or the binding that the entry has if there is none. -/
def Entry.latest (entry : Entry V E) (bindings : List (Binding V E)) : Binding V E :=
  (last? bindings entry.registered.identity).getD entry.binding

/-! ### One binding -/

section Bind

variable {m m' : Module V E} {b : Binding V E} {e : BindError}

/-- A binding is refused for want of the mark, under a key that is taken, and changes nothing. -/
theorem bind_eq_error_iff : m.bind b = (.error e, m') ↔
    m' = m ∧ b.isOverride = false ∧ ∃ entry, m.find? b.key = some entry ∧ e = .duplicate entry.registered := by
  unfold bind
  cases m.find? b.key with
  | none => simp
  | some entry => cases b.isOverride <;> simp [eq_comm, and_comm]

/-- A binding is registered under a new key, after all others, or in the place of the one that it overrides. -/
theorem bind_eq_ok (h : m.bind b = (.ok (), m')) :
    (m.find? b.key = none ∧ m' = ⟨m.entries ++ [⟨b.key, b⟩]⟩) ∨
      ((m.find? b.key).isSome = true ∧ m' = m.replace b) := by
  unfold bind at h
  cases hfind : m.find? b.key with
  | none =>
    simp only [hfind, Prod.mk.injEq, true_and] at h
    exact .inl ⟨rfl, h.symm⟩
  | some entry =>
    simp only [hfind] at h
    split at h
    · exact .inr ⟨rfl, (Prod.mk.inj h).2.symm⟩
    · cases (Prod.mk.inj h).1

/-- Keys of one identity find the same. -/
theorem find?_congr {key key' : Key} (h : key.identity = key'.identity) : m.find? key = m.find? key' := by
  unfold find?
  rw [h]

/-- A binding that is registered is found under its key, and under any other key there is what was there before. -/
theorem get?_of_bind (h : m.bind b = (.ok (), m')) (key : Key) :
    m'.get? key = if b.key.identity = key.identity then some b else m.get? key := by
  rcases bind_eq_ok h with ⟨hfree, rfl⟩ | ⟨htaken, rfl⟩
  · unfold get? find?
    rw [List.find?_append, ← find?]
    by_cases hkey : b.key.identity = key.identity
    · rw [find?_congr hkey.symm, hfree, if_pos hkey]
      simp [hkey]
    · rw [if_neg hkey]
      simp [hkey]
  · -- The entries are found where they were, since they remember the keys that they were registered under.
    have hfound : (m.replace b).find? key = (m.find? key).map fun entry =>
        if entry.registered.identity = b.key.identity then { entry with binding := b } else entry := by
      unfold find? replace
      rw [List.find?_map]
      refine congrArg (Option.map _) (List.find?_congr fun entry _ => ?_)
      simp only [Function.comp_apply]
      split <;> rfl
    unfold get?
    rw [hfound]
    cases hfind : m.find? key with
    | none =>
      have hkey : b.key.identity ≠ key.identity := by
        intro hkey
        rw [find?_congr hkey, hfind] at htaken
        cases htaken
      rw [if_neg hkey]
      rfl
    | some entry =>
      have hentry : entry.registered.identity = key.identity := by simpa using List.find?_some hfind
      simp only [Option.map_some, hentry]
      by_cases hkey : b.key.identity = key.identity
      · rw [if_pos hkey, if_pos hkey.symm]
      · rw [if_neg hkey, if_neg (Ne.symm hkey)]

/-- A module contains a key exactly if it has something under it. -/
theorem contains_eq (m : Module V E) (key : Key) : m.contains key = (m.get? key).isSome := by simp [contains, get?]

/-- Once a binding is added, the module contains its key besides those that it contained. -/
theorem contains_of_bind (h : m.bind b = (.ok (), m')) (key : Key) :
    m'.contains key = (decide (b.key.identity = key.identity) || m.contains key) := by
  rw [contains_eq, contains_eq, get?_of_bind h]
  split <;> simp [*]

end Bind

/-! ### One binding after the other -/

section BindAll

variable {m m' : Module V E} {bindings rest : List (Binding V E)} {b : Binding V E} {key : KeyId} {e : BindError}

/-- The first binding of a list is the last one under its key if no other has it. -/
theorem last?_cons : last? (b :: rest) key = (last? rest key).or (if b.key.identity = key then some b else none) := by
  rw [← List.singleton_append, last?_append]
  congr 1
  by_cases hkey : b.key.identity = key <;> simp [last?, first?, hkey]

/-- Leaving out bindings of other keys makes no difference to the last one under a key. -/
theorem last?_filter {p : Binding V E → Bool} (h : ∀ b ∈ bindings, b.key.identity = key → p b = true) :
    last? (bindings.filter p) key = last? bindings key := by
  unfold last? first?
  rw [← List.filter_reverse, List.find?_filter]
  refine List.find?_congr fun b hb => ?_
  by_cases hkey : b.key.identity = key
  · simp [h b (List.mem_reverse.mp hb) hkey]
  · simp [hkey]

/-- The key of the first binding comes first, and does not come again. -/
theorem occurring_cons : occurring (b :: rest) =
    b.key.identity :: occurring (rest.filter fun other => other.key.identity ≠ b.key.identity) := by
  unfold occurring
  rw [List.map_cons, List.eraseDups_cons, List.filter_map]
  refine congrArg (fun others => _ :: (List.map _ others).eraseDups) (List.filter_congr fun other _ => ?_)
  simp [beq_eq_decide]

/-- The first binding of a list is left, or the last one under its key, and then what is left under other keys. -/
theorem survivors_cons : survivors (b :: rest) = (last? rest b.key.identity).getD b ::
    survivors (rest.filter fun other => other.key.identity ≠ b.key.identity) := by
  have hfirst : last? (b :: rest) b.key.identity = some ((last? rest b.key.identity).getD b) := by
    rw [last?_cons, if_pos rfl]
    cases last? rest b.key.identity <;> rfl
  unfold survivors
  rw [occurring_cons, List.filterMap_cons_some hfirst]
  congr 1
  refine List.filterMap_congr fun key hkey => ?_
  obtain ⟨other, hother, rfl⟩ := mem_occurring.mp hkey
  have hne : other.key.identity ≠ b.key.identity := by simpa using (List.mem_filter.mp hother).2
  rw [last?_cons, if_neg hne.symm, Option.or_none, last?_filter]
  intro b' _ hb'
  simpa [hb'] using hne

/-- Registering a list is registering its first binding and then the others. -/
theorem bindAll_cons (h : bindAll (b :: rest) m = (.ok (), m')) :
    ∃ between, m.bind b = (.ok (), between) ∧ bindAll rest between = (.ok (), m') := by
  unfold bindAll at h
  split at h
  · next between hbind => exact ⟨between, hbind, h⟩
  · cases (Prod.mk.inj h).1

/-- The first binding that is refused ends it: what comes before it is registered, and nothing else happens. -/
theorem bindAll_eq_error (h : bindAll bindings m = (.error e, m')) :
    ∃ before refused after, bindings = before ++ refused :: after ∧ bindAll before m = (.ok (), m') ∧
      m'.bind refused = (.error e, m') := by
  induction bindings generalizing m with
  | nil => cases (Prod.mk.inj h).1
  | cons b rest ih =>
    unfold bindAll at h
    split at h
    · next between hbind =>
      obtain ⟨before, refused, after, rfl, hbefore, hrefused⟩ := ih h
      refine ⟨b :: before, refused, after, rfl, ?_, hrefused⟩
      rw [bindAll, hbind]
      exact hbefore
    · next hrefused =>
      obtain ⟨he, rfl⟩ := Prod.mk.inj h
      obtain rfl := Except.error.inj he
      obtain ⟨rfl, -⟩ := bind_eq_error_iff.mp hrefused
      exact ⟨[], b, rest, rfl, rfl, hrefused⟩

/-- What is registered in several steps is found in the last step that has it, or where it was before. -/
theorem get?_of_bindAll (h : bindAll bindings m = (.ok (), m')) (key : Key) :
    m'.get? key = (last? bindings key.identity).or (m.get? key) := by
  induction bindings generalizing m with
  | nil =>
    obtain ⟨-, rfl⟩ := Prod.mk.inj h
    rfl
  | cons b rest ih =>
    obtain ⟨between, hbind, hrest⟩ := bindAll_cons h
    rw [ih hrest, get?_of_bind hbind, last?_cons]
    cases last? rest key.identity <;> split <;> rfl

/-- What was there stays in its place, in the version that was registered last. What is new comes after it. -/
theorem bindings_of_bindAll (h : bindAll bindings m = (.ok (), m')) : m'.bindings =
    (m.entries.map fun entry => entry.latest bindings) ++ survivors (bindings.filter fun b => !m.contains b.key) := by
  induction bindings generalizing m with
  | nil =>
    obtain ⟨-, rfl⟩ := Prod.mk.inj h
    simp [Module.bindings, Entry.latest, last?, first?, survivors, occurring]
  | cons b rest ih =>
    obtain ⟨between, hbind, hrest⟩ := bindAll_cons h
    have hnew (other : Binding V E) : (!between.contains other.key) =
        (decide (other.key.identity ≠ b.key.identity) && !m.contains other.key) := by
      rw [contains_of_bind hbind, Bool.not_or, ← decide_not]
      exact congrArg (· && _) (decide_eq_decide.mpr ne_comm)
    rw [ih hrest, List.filter_congr fun other _ => hnew other, List.filter_cons]
    rcases bind_eq_ok hbind with ⟨hfree, rfl⟩ | ⟨htaken, rfl⟩
    · -- The key comes first among those that are new.
      have hkept : ∀ entry ∈ m.entries, entry.latest rest = entry.latest (b :: rest) := by
        intro entry hentry
        have hne : entry.registered.identity ≠ b.key.identity := by simpa using List.find?_eq_none.mp hfree entry hentry
        rw [Entry.latest, Entry.latest, last?_cons, if_neg hne.symm, Option.or_none]
      have hfresh : ∀ other ∈ rest, other.key.identity = b.key.identity → (!m.contains other.key) = true := by
        intro other _ hkey
        rw [contains, find?_congr hkey, hfree]
        rfl
      have hfirst : (!m.contains b.key) = true := by rw [contains, hfree]; rfl
      rw [if_pos hfirst, survivors_cons, last?_filter hfresh, List.filter_filter, List.map_append,
        List.map_congr_left hkept, List.append_assoc]
      rfl
    · -- The key is not new, and stays in its place.
      have hplace : (m.replace b).entries.map (fun entry => entry.latest rest) =
          m.entries.map fun entry => entry.latest (b :: rest) := by
        unfold replace
        rw [List.map_map]
        refine List.map_congr_left fun entry _ => ?_
        simp only [Function.comp_apply, Entry.latest, last?_cons]
        by_cases hkey : entry.registered.identity = b.key.identity
        · rw [if_pos hkey, if_pos hkey.symm]
          cases last? rest entry.registered.identity <;> rfl
        · rw [if_neg hkey, if_neg (Ne.symm hkey), Option.or_none]
      have htaken' (other : Binding V E) : (decide (other.key.identity ≠ b.key.identity) && !m.contains other.key) =
          !m.contains other.key := by
        by_cases hkey : other.key.identity = b.key.identity
        · rw [contains, find?_congr hkey, htaken]
          simp
        · simp [hkey]
      have hfirst : ¬ (!m.contains b.key) = true := by rw [contains, htaken]; simp
      rw [if_neg hfirst, hplace, List.filter_congr fun other _ => htaken' other]

end BindAll

/-! ### Refusals -/

/-- Whatever registration is refused, a single binding leaves the module as it was, passed through a behavior or not.
Another module that is to be included is registered up to its first binding that is refused: what was there before
stays in its place, in the version that was registered last, what is new comes after it, and everything is found
accordingly. Nothing of the refused binding and of those after it is registered. -/
theorem registration_refused (m : Module V E) :
    (∀ b e m', m.bind b = (.error e, m') → m' = m) ∧
      (∀ b behavior surroundings e m', (m.bindWith b behavior surroundings).1 = (.error e, m') → m' = m) ∧
      ∀ other e m', m.merge other = (.error e, m') →
        ∃ before refused after, other.bindings = before ++ refused :: after ∧
          bindAll before m = (.ok (), m') ∧ m'.bind refused = (.error e, m') ∧
          m'.bindings = (m.entries.map fun entry => entry.latest before) ++
            survivors (before.filter fun b => !m.contains b.key) ∧
          m'.size = m.size + (occurring (before.filter fun b => !m.contains b.key)).length ∧
          ∀ key, m'.get? key = (last? before key.identity).or (m.get? key) ∧
            (m'.contains key = true ↔ key.identity ∈ occurring before ∨ m.contains key = true) := by
  refine ⟨fun b e m' h => (bind_eq_error_iff.mp h).1, fun b behavior surroundings e m' h => (bind_eq_error_iff.mp h).1,
    fun other e m' h => ?_⟩
  obtain ⟨before, refused, after, hsplit, hbefore, hrefused⟩ := bindAll_eq_error h
  have hbindings := bindings_of_bindAll hbefore
  refine ⟨before, refused, after, hsplit, hbefore, hrefused, hbindings, ?_, fun key =>
    ⟨get?_of_bindAll hbefore key, ?_⟩⟩
  · calc
      m'.size = m'.bindings.length := (List.length_map _).symm
      _ = m.entries.length + (survivors (before.filter fun b => !m.contains b.key)).length := by
        rw [hbindings, List.length_append, List.length_map]
      _ = m.size + (occurring (before.filter fun b => !m.contains b.key)).length := by
        rw [← identities_survivors, List.length_map]
        rfl
  · rw [contains_eq, contains_eq, get?_of_bindAll hbefore, Option.isSome_or, Bool.or_eq_true]
    refine or_congr_left ?_
    rw [Option.isSome_iff_ne_none, ne_eq, last?_eq_none, not_not]

/-- A module of two types. A second binding of the first type is refused, as is one of a third type that a behavior
makes one of the first. Of another module of four bindings, the first is new, the second overrides, and the third is
refused. -/
theorem registration_refused_third :
    let binding (n : UInt64) : Binding Unit (List String) := (Declaration.noted n []).binding
    let rename : Behavior Unit (List String) := .of fun b notes => (b.withKey (binding 0).key, "rename" :: notes)
    let m : Module Unit (List String) := ⟨[⟨(binding 0).key, binding 0⟩, ⟨(binding 1).key, binding 1⟩]⟩
    let overriding := ((binding 0).withKind .factory).withOverride true
    let other : Module Unit (List String) :=
      ⟨[binding 2, overriding, binding 1, binding 3].map fun b => ⟨b.key, b⟩⟩
    let summary (m : Module Unit (List String)) := m.bindings.map fun b => (b.key.type.id.code, b.kind)
    (∃ e m', m.bind (binding 0) = (.error e, m') ∧ m' = m) ∧
      (∃ e m', (m.bindWith (binding 2) rename []).1 = (.error e, m') ∧ m' = m) ∧
      ∃ e m' before refused after, m.merge other = (.error e, m') ∧ other.bindings = before ++ refused :: after ∧
        bindAll before m = (.ok (), m') ∧ summary m = [(0, .single), (1, .single)] ∧
        summary m' = [(0, .factory), (1, .single), (2, .single)] ∧ m'.contains (binding 3).key = false := by
  intro binding rename m overriding other summary
  obtain ⟨hbind, hbindWith, hmerge⟩ := registration_refused m
  obtain ⟨before, refused, after, hsplit, hbefore, -⟩ := hmerge other _ _ rfl
  exact ⟨⟨_, _, rfl, hbind (binding 0) _ _ rfl⟩, ⟨_, _, rfl, hbindWith (binding 2) rename [] _ _ rfl⟩,
    _, _, before, refused, after, rfl, hsplit, hbefore, rfl, rfl, rfl⟩

/-- What comes before the refused binding stays: the module is larger than before, and holds a key that it did not. -/
theorem merge_refused_partway :
    let binding (n : UInt64) : Binding Unit (List String) := (Declaration.noted n []).binding
    let m : Module Unit (List String) := ⟨[⟨(binding 0).key, binding 0⟩]⟩
    let other : Module Unit (List String) := ⟨[⟨(binding 1).key, binding 1⟩, ⟨(binding 0).key, binding 0⟩]⟩
    ∃ e m', m.merge other = (.error e, m') ∧ m'.bindings ≠ m.bindings ∧ m'.size = 2 ∧ m.size = 1 ∧
      m'.contains (binding 1).key = true ∧ m.contains (binding 1).key = false := by
  intro binding m other
  refine ⟨_, _, rfl, fun hsame => ?_, rfl, rfl, rfl, rfl⟩
  exact absurd (congrArg List.length hsame) (by decide)

end Module

end Injection

import Injection.Proofs.Hierarchy
import Mathlib.Data.List.Find

/-!
# What is built from declarations

A module is built from declarations one by one. Each is first passed through its behavior, which may
change the key and the override mark, and only then is it held against what is registered already. The
module is thereby determined by the list of transformed bindings alone: it has a place for every key, in
the order in which the keys first occur, and in that place the last binding under the key.
-/

namespace Injection

variable {V E : Type}

namespace Module

/-! ### Behaviors -/

/-- The transformations that a declaration passes through. -/
def Declaration.chain (declaration : Declaration V E) : List (Transformation V E) :=
  (declaration.behavior.map Behavior.chain).getD []

/-- What a declaration registers, and the surroundings after its behavior. -/
def Declaration.transform (declaration : Declaration V E) (surroundings : E) : Binding V E × E :=
  declaration.chain.foldl (fun (b, e) transformation => transformation b e) (declaration.binding, surroundings)

/-- The surroundings after the behaviors of declarations in order. -/
def surroundingsAfter (declarations : List (Declaration V E)) (surroundings : E) : E :=
  declarations.foldl (fun e declaration => (declaration.transform e).2) surroundings

/-- What declarations register, each after the behaviors of those before it. -/
def transformed : List (Declaration V E) → E → List (Binding V E)
  | [], _ => []
  | declaration :: rest, surroundings =>
    (declaration.transform surroundings).1 :: transformed rest (declaration.transform surroundings).2

/-- A declaration is registered as what its behavior makes of it. -/
theorem declare_eq (declaration : Declaration V E) (m : Module V E) (surroundings : E) :
    m.declare declaration surroundings =
      (m.bind (declaration.transform surroundings).1, (declaration.transform surroundings).2) := by
  obtain ⟨binding, behavior⟩ := declaration
  cases behavior <;> rfl

/-- If every transformation of some declarations leaves a note, the notes show that each was run once,
in the order of the declarations and of their chains. -/
theorem notes_surroundingsAfter {L : Type} (notes : E → List L) (note : Transformation V E → L)
    (declarations : List (Declaration V E))
    (hnotes : ∀ transformation ∈ declarations.flatMap Declaration.chain, ∀ b e,
      notes (transformation b e).2 = notes e ++ [note transformation]) (surroundings : E) :
    notes (surroundingsAfter declarations surroundings) =
      notes surroundings ++ (declarations.flatMap Declaration.chain).map note := by
  have hchain (chain : List (Transformation V E))
      (hchain : ∀ transformation ∈ chain, ∀ b e, notes (transformation b e).2 = notes e ++ [note transformation])
      (start : Binding V E × E) :
      notes (chain.foldl (fun (b, e) transformation => transformation b e) start).2 =
        notes start.2 ++ chain.map note := by
    induction chain generalizing start with
    | nil => simp
    | cons transformation rest ih =>
      rw [List.foldl_cons, ih (fun other hother => hchain other (List.mem_cons_of_mem _ hother)),
        hchain transformation List.mem_cons_self]
      simp
  induction declarations generalizing surroundings with
  | nil => simp [surroundingsAfter]
  | cons declaration rest ih =>
    rw [List.flatMap_cons] at hnotes
    have hfirst := hchain declaration.chain
      (fun other hother => hnotes other (List.mem_append_left _ hother)) (declaration.binding, surroundings)
    have hrest := ih (fun other hother => hnotes other (List.mem_append_right _ hother))
      (declaration.transform surroundings).2
    calc
      notes (surroundingsAfter rest (declaration.transform surroundings).2)
        = notes (declaration.transform surroundings).2 ++ (rest.flatMap Declaration.chain).map note := hrest
      _ = notes surroundings ++ declaration.chain.map note ++ (rest.flatMap Declaration.chain).map note :=
        congrArg (· ++ _) hfirst
      _ = notes surroundings ++ ((declaration :: rest).flatMap Declaration.chain).map note := by simp

/-! ### The override policy -/

/-- Whatever has the key of an earlier binding is marked as an override. -/
def Permitted (bindings : List (Binding V E)) : Prop :=
  bindings.Pairwise fun earlier later => earlier.key.identity = later.key.identity → later.isOverride = true

/-- The identities of keys in the order in which they first occur. -/
def occurring (bindings : List (Binding V E)) : List KeyId :=
  (bindings.map fun binding => binding.key.identity).eraseDups

/-- The first binding under a key. -/
def first? (bindings : List (Binding V E)) (key : KeyId) : Option (Binding V E) :=
  bindings.find? fun binding => binding.key.identity = key

/-- The last binding under a key. -/
def last? (bindings : List (Binding V E)) (key : KeyId) : Option (Binding V E) :=
  first? bindings.reverse key

/-- A module is what registering some bindings one after the other makes of the empty one: it has a
place for every key that occurs, under the key of the first binding and with the last one. -/
structure Registers (m : Module V E) (bindings : List (Binding V E)) : Prop where
  permitted : Permitted bindings
  order : (m.entries.map fun entry => entry.registered.identity) = occurring bindings
  first : ∀ entry ∈ m.entries,
    (first? bindings entry.registered.identity).map Binding.key = some entry.registered
  last : ∀ entry ∈ m.entries, last? bindings entry.registered.identity = some entry.binding

section Policy

variable {m m' : Module V E} {bindings : List (Binding V E)} {b : Binding V E} {key : KeyId}

/-- One more binding is permitted exactly if it is an override or has a key of its own. -/
theorem permitted_concat :
    Permitted (bindings ++ [b]) ↔
      Permitted bindings ∧ ((∃ other ∈ bindings, other.key.identity = b.key.identity) → b.isOverride = true) := by
  simp only [Permitted, List.pairwise_append, List.pairwise_singleton, List.mem_singleton, forall_eq, true_and]
  refine and_congr_right fun _ => ⟨?_, fun h other hother hkey => h ⟨other, hother, hkey⟩⟩
  rintro h ⟨other, hother, hkey⟩
  exact h other hother hkey

/-- What comes first in a permitted list is permitted. -/
theorem Permitted.of_append {rest : List (Binding V E)} (h : Permitted (bindings ++ rest)) :
    Permitted bindings :=
  (List.pairwise_append.mp h).1

/-- A key occurs if some binding has it. -/
theorem mem_occurring : key ∈ occurring bindings ↔ ∃ binding ∈ bindings, binding.key.identity = key := by
  simp [occurring]

/-- A key that occurred before keeps its place. -/
theorem occurring_concat_of_mem (h : ∃ other ∈ bindings, other.key.identity = b.key.identity) :
    occurring (bindings ++ [b]) = occurring bindings := by
  simp [occurring, List.eraseDups_append, List.removeAll, h]

/-- A new key comes last. -/
theorem occurring_concat_of_not_mem (h : ¬∃ other ∈ bindings, other.key.identity = b.key.identity) :
    occurring (bindings ++ [b]) = occurring bindings ++ [b.key.identity] := by
  simp [occurring, List.eraseDups_append, List.removeAll, List.eraseDups_cons, h]

/-- No binding is the first under a key exactly if none has it. -/
theorem first?_eq_none : first? bindings key = none ↔ ¬∃ binding ∈ bindings, binding.key.identity = key := by
  simp [first?]

/-- One more binding is the first under its key only if none has come before it. -/
theorem first?_concat :
    first? (bindings ++ [b]) key = (first? bindings key).or (first? [b] key) := by
  simp [first?]

/-- One more binding is the last under its key. -/
theorem last?_concat :
    last? (bindings ++ [b]) key = if b.key.identity = key then some b else last? bindings key := by
  unfold last? first?
  rw [List.reverse_append, List.reverse_singleton, List.singleton_append, List.find?_cons]
  by_cases hkey : b.key.identity = key <;> simp [hkey]

/-- Registering nothing leaves the empty module. -/
theorem registers_empty : (empty : Module V E).Registers [] :=
  ⟨.nil, rfl, by simp [empty], by simp [empty]⟩

namespace Registers

variable (h : m.Registers bindings)
include h

/-- There is a place for every key that was registered. -/
theorem exists_entry {key : KeyId} (hkey : ∃ binding ∈ bindings, binding.key.identity = key) :
    ∃ entry ∈ m.entries, entry.registered.identity = key := by
  rw [← mem_occurring, ← h.order] at hkey
  exact List.mem_map.mp hkey

/-- Every place is that of a key that was registered. -/
theorem mem_of_entry {entry : Entry V E} (hentry : entry ∈ m.entries) :
    ∃ binding ∈ bindings, binding.key.identity = entry.registered.identity := by
  rw [← mem_occurring, ← h.order]
  exact List.mem_map_of_mem hentry

/-- The bindings of the module are the last ones, in the order in which their keys first occur. -/
theorem bindings_eq : m.bindings.map some = (occurring bindings).map (last? bindings) := by
  rw [← h.order, Module.bindings, List.map_map, List.map_map]
  exact List.map_congr_left fun entry hentry => (h.last entry hentry).symm

/-- A binding under a new key is given the last place. -/
theorem bind_new (hnew : ¬∃ other ∈ bindings, other.key.identity = b.key.identity) :
    (m.bind b).1 = .ok () ∧ (m.bind b).2.Registers (bindings ++ [b]) := by
  have hfind : m.find? b.key = none := by
    rw [find?, List.find?_eq_none]
    intro entry hentry
    have hne : entry.registered.identity ≠ b.key.identity := fun hkey => hnew (hkey ▸ h.mem_of_entry hentry)
    simpa using hne
  simp only [Module.bind, hfind, true_and]
  refine ⟨permitted_concat.mpr ⟨h.permitted, fun hkey => absurd hkey hnew⟩, ?_, fun entry hentry => ?_,
    fun entry hentry => ?_⟩
  · rw [occurring_concat_of_not_mem hnew, ← h.order, List.map_append]
    rfl
  · rcases List.mem_append.mp hentry with hentry | hentry
    · obtain ⟨binding, hbinding, -⟩ := Option.map_eq_some_iff.mp (h.first entry hentry)
      rw [first?_concat, hbinding, Option.some_or, ← hbinding, h.first entry hentry]
    · rw [List.mem_singleton.mp hentry, first?_concat, first?_eq_none.mpr hnew]
      simp [first?]
  · rcases List.mem_append.mp hentry with hentry | hentry
    · have hne : b.key.identity ≠ entry.registered.identity := fun hkey => hnew (hkey ▸ h.mem_of_entry hentry)
      rw [last?_concat, if_neg hne, h.last entry hentry]
    · rw [List.mem_singleton.mp hentry, last?_concat, if_pos rfl]

/-- A binding under a key that is taken takes over the place if it is an override, and is refused
otherwise. -/
theorem bind_taken (htaken : ∃ other ∈ bindings, other.key.identity = b.key.identity) :
    (b.isOverride = true → (m.bind b).1 = .ok () ∧ (m.bind b).2.Registers (bindings ++ [b])) ∧
      (b.isOverride = false → ∃ key, (first? bindings b.key.identity).map Binding.key = some key ∧
        m.bind b = (.error (.duplicate key), m)) := by
  obtain ⟨taken, htakenMem, htakenKey⟩ := h.exists_entry htaken
  obtain ⟨entry, hfind⟩ : ∃ entry, m.find? b.key = some entry := by
    rw [← Option.isSome_iff_exists, find?, List.find?_isSome]
    exact ⟨taken, htakenMem, by simpa using htakenKey⟩
  have hentry : entry ∈ m.entries := List.mem_of_find?_eq_some hfind
  have hkey : entry.registered.identity = b.key.identity := by simpa using List.find?_some hfind
  constructor
  · intro hoverride
    simp only [Module.bind, hfind, hoverride, if_true, true_and]
    have hregistered (before : Entry V E) :
        (if before.registered.identity = b.key.identity then { before with binding := b }
          else before).registered = before.registered := by
      split <;> rfl
    refine ⟨permitted_concat.mpr ⟨h.permitted, fun _ => hoverride⟩, ?_, fun after hafter => ?_,
      fun after hafter => ?_⟩
    · rw [occurring_concat_of_mem htaken, ← h.order, replace, List.map_map]
      exact List.map_congr_left fun before _ => congrArg Key.identity (hregistered before)
    · obtain ⟨before, hbefore, rfl⟩ := List.mem_map.mp hafter
      obtain ⟨binding, hbinding, -⟩ := Option.map_eq_some_iff.mp (h.first before hbefore)
      rw [hregistered, first?_concat, hbinding, Option.some_or, ← hbinding, h.first before hbefore]
    · obtain ⟨before, hbefore, rfl⟩ := List.mem_map.mp hafter
      rw [hregistered, last?_concat]
      by_cases hsame : before.registered.identity = b.key.identity
      · rw [if_pos hsame.symm, if_pos hsame]
      · rw [if_neg (Ne.symm hsame), if_neg hsame, h.last before hbefore]
  · intro hoverride
    refine ⟨entry.registered, hkey ▸ h.first entry hentry, ?_⟩
    simp [Module.bind, hfind, hoverride]

/-- What the policy permits is registered. -/
theorem bind_permitted (hpermitted : Permitted (bindings ++ [b])) :
    m.bind b = (.ok (), (m.bind b).2) ∧ (m.bind b).2.Registers (bindings ++ [b]) := by
  obtain ⟨hbound, hregisters⟩ : (m.bind b).1 = .ok () ∧ (m.bind b).2.Registers (bindings ++ [b]) := by
    by_cases htaken : ∃ other ∈ bindings, other.key.identity = b.key.identity
    · exact (h.bind_taken htaken).1 ((permitted_concat.mp hpermitted).2 htaken)
    · exact h.bind_new htaken
  exact ⟨Prod.ext hbound rfl, hregisters⟩

/-- What it does not permit is refused, with the key that its place was first registered under. -/
theorem bind_refused (hrefused : ¬Permitted (bindings ++ [b])) :
    ∃ key, (first? bindings b.key.identity).map Binding.key = some key ∧
      m.bind b = (.error (.duplicate key), m) := by
  rw [permitted_concat, not_and, Classical.not_imp] at hrefused
  obtain ⟨htaken, hoverride⟩ := hrefused h.permitted
  exact (h.bind_taken htaken).2 (by simpa using hoverride)

/-- Declarations are registered in order if the policy permits what they come to. -/
theorem declareAll_permitted (declarations : List (Declaration V E)) (surroundings : E)
    (hpermitted : Permitted (bindings ++ transformed declarations surroundings)) :
    ∃ m', Module.declareAll declarations m surroundings = (.ok m', surroundingsAfter declarations surroundings) ∧
      m'.Registers (bindings ++ transformed declarations surroundings) := by
  induction declarations generalizing m bindings surroundings with
  | nil => exact ⟨m, rfl, by simpa [transformed] using h⟩
  | cons declaration rest ih =>
    let b := (declaration.transform surroundings).1
    have hsplit : bindings ++ transformed (declaration :: rest) surroundings =
        (bindings ++ [b]) ++ transformed rest (declaration.transform surroundings).2 :=
      List.append_cons _ _ _
    rw [hsplit] at hpermitted ⊢
    obtain ⟨hbind, hregisters⟩ := h.bind_permitted hpermitted.of_append
    obtain ⟨m', hrest, hregisters'⟩ := ih hregisters _ hpermitted
    refine ⟨m', ?_, hregisters'⟩
    rw [Module.declareAll, declare_eq, hbind]
    exact hrest

/-- Otherwise the first declaration is refused that the policy does not permit, and none after it is
looked at. -/
theorem declareAll_refused (declarations : List (Declaration V E)) (surroundings : E)
    (hrefused : ¬Permitted (bindings ++ transformed declarations surroundings)) :
    ∃ done declaration rest key, declarations = done ++ declaration :: rest ∧
      Permitted (bindings ++ transformed done surroundings) ∧
      ¬Permitted (bindings ++ transformed (done ++ [declaration]) surroundings) ∧
      (first? (bindings ++ transformed done surroundings)
        (declaration.transform (surroundingsAfter done surroundings)).1.key.identity).map Binding.key = some key ∧
      Module.declareAll declarations m surroundings =
        (.error (.duplicate key), surroundingsAfter (done ++ [declaration]) surroundings) := by
  induction declarations generalizing m bindings surroundings with
  | nil => exact absurd (by simpa [transformed] using h.permitted) hrefused
  | cons declaration rest ih =>
    let b := (declaration.transform surroundings).1
    have hsplit (later : List (Declaration V E)) : bindings ++ transformed (declaration :: later) surroundings =
        (bindings ++ [b]) ++ transformed later (declaration.transform surroundings).2 :=
      List.append_cons _ _ _
    by_cases hpermitted : Permitted (bindings ++ [b])
    · obtain ⟨hbind, hregisters⟩ := h.bind_permitted hpermitted
      rw [hsplit] at hrefused
      obtain ⟨done, refused, later, key, rfl, hdone, hlast, hkey, hrest⟩ := ih hregisters _ hrefused
      refine ⟨declaration :: done, refused, later, key, rfl, ?_, ?_, ?_, ?_⟩
      · rwa [hsplit]
      · rwa [List.cons_append, hsplit]
      · rwa [hsplit]
      · rw [Module.declareAll, declare_eq, hbind]
        exact hrest
    · -- The declaration itself is the one that is refused.
      obtain ⟨key, hkey, hbind⟩ := h.bind_refused hpermitted
      refine ⟨[], declaration, rest, key, rfl, ?_, ?_, ?_, ?_⟩
      · simpa [transformed] using h.permitted
      · simpa [transformed] using hpermitted
      · simpa [transformed, surroundingsAfter] using hkey
      · rw [Module.declareAll, declare_eq, hbind]
        rfl

end Registers

end Policy

/-- A module is looked up as its list of bindings is. -/
theorem Keyed.get?_eq_find? {m : Module V E} (h : m.Keyed) (key : Key) :
    m.get? key = m.bindings.find? fun b => b.key.identity = key.identity := by
  rw [get?, find?, Module.bindings, List.find?_map]
  congr 1
  exact List.find?_congr fun entry hentry => by simp [h.keys entry hentry]

/-- A module contains a key exactly if one of its bindings has it. -/
theorem Keyed.contains_iff {m : Module V E} (h : m.Keyed) (key : Key) :
    m.contains key = true ↔ ∃ b ∈ m.bindings, b.key.identity = key.identity := by
  have hget : m.contains key = (m.get? key).isSome := by simp [contains, get?]
  rw [hget, h.get?_eq_find?]
  simp

/-- A module is built exactly if every binding with the key of an earlier one is marked as an override,
after the behaviors have transformed them. It lists the distinct keys in the order in which they first
occur, each with the last binding under it, and is looked up accordingly. Otherwise the key of the first
binding that violates the policy is reported. All behaviors of the declarations that were looked at have
run, once each and in order: of all declarations, or of those up to the one that was refused. -/
theorem build_follows_policy (declarations : List (Declaration V E)) (surroundings : E) :
    ((∃ m, (build declarations surroundings).1 = .ok m) ↔ Permitted (transformed declarations surroundings)) ∧
      (∀ m, (build declarations surroundings).1 = .ok m →
        m.bindings.map some = (occurring (transformed declarations surroundings)).map
            (last? (transformed declarations surroundings)) ∧
          (∀ key, m.get? key = m.bindings.find? (fun b => b.key.identity = key.identity) ∧
            (m.contains key = true ↔ ∃ b ∈ m.bindings, b.key.identity = key.identity)) ∧
          m.size = m.bindings.length ∧
          (build declarations surroundings).2 = surroundingsAfter declarations surroundings) ∧
      (∀ e, (build declarations surroundings).1 = .error e →
        ∃ done declaration rest key, declarations = done ++ declaration :: rest ∧
          Permitted (transformed done surroundings) ∧
          ¬Permitted (transformed (done ++ [declaration]) surroundings) ∧
          e = .duplicate key ∧
          key.identity = (declaration.transform (surroundingsAfter done surroundings)).1.key.identity ∧
          (first? (transformed done surroundings) key.identity).map Binding.key = some key ∧
          (build declarations surroundings).2 = surroundingsAfter (done ++ [declaration]) surroundings) ∧
      ∀ {L : Type} (notes : E → List L) (note : Transformation V E → L) (looked : List (Declaration V E)),
        (∀ transformation ∈ looked.flatMap Declaration.chain, ∀ b e,
          notes (transformation b e).2 = notes e ++ [note transformation]) →
        notes (surroundingsAfter looked surroundings) =
          notes surroundings ++ (looked.flatMap Declaration.chain).map note := by
  have hbuilt := registers_empty.declareAll_permitted declarations surroundings
  have hrefused := registers_empty.declareAll_refused declarations surroundings
  have hok {m : Module V E} (hm : (build declarations surroundings).1 = .ok m) :
      Permitted (transformed declarations surroundings) := by
    by_contra hnot
    obtain ⟨done, declaration, rest, key, -, -, -, -, hbuild⟩ := hrefused hnot
    simp [build, hbuild] at hm
  refine ⟨⟨fun ⟨m, hm⟩ => hok hm, fun hpermitted => ?_⟩, ?_, ?_, ?_⟩
  · obtain ⟨m, hbuild, -⟩ := hbuilt hpermitted
    exact ⟨m, congrArg Prod.fst hbuild⟩
  · intro m hm
    obtain ⟨m', hbuild, hregisters⟩ := hbuilt (hok hm)
    obtain rfl : m' = m := by simpa [build, hbuild] using hm
    exact ⟨hregisters.bindings_eq, fun key => ⟨(keyed_build hm).get?_eq_find? key, (keyed_build hm).contains_iff key⟩,
      (List.length_map _).symm, congrArg Prod.snd hbuild⟩
  · intro e he
    have hnot : ¬Permitted (transformed declarations surroundings) := by
      intro hpermitted
      obtain ⟨m, hbuild, -⟩ := hbuilt hpermitted
      simp [build, hbuild] at he
    obtain ⟨done, declaration, rest, key, hsplit, hdone, hlast, hkey, hbuild⟩ := hrefused hnot
    obtain rfl : BindError.duplicate key = e := by simpa [build, hbuild] using he
    obtain ⟨first, hfirst, rfl⟩ := Option.map_eq_some_iff.mp hkey
    have hsame : first.key.identity = (declaration.transform (surroundingsAfter done surroundings)).1.key.identity := by
      simpa using List.find?_some hfirst
    exact ⟨done, declaration, rest, first.key, hsplit, hdone, hlast, rfl, hsame, hsame ▸ hkey, congrArg Prod.snd hbuild⟩
  · intro L notes note looked hnotes
    exact notes_surroundingsAfter notes note looked hnotes surroundings

/-- Declares a binding for one of the types, which passes through changes that leave a note each. -/
def Declaration.noted (n : UInt64)
    (changes : List (String × (Binding Unit (List String) → Binding Unit (List String)))) :
    Declaration Unit (List String) :=
  ⟨.new (.of ⟨⟨n⟩, "T"⟩) .single (.failing (.provider "none")),
    some ⟨changes.map fun (note, change) b notes => (change b, notes ++ [note])⟩⟩

/-- The second binding is given the key of the first and marked as an override by its behavior, so it
takes the first place. Without the mark it is refused, and the behavior of the third does not run. -/
theorem build_follows_policy_renamed :
    let rename := ("rename", fun b : Binding Unit (List String) => b.withKey (.of ⟨⟨0⟩, "U"⟩))
    let mark := ("mark", fun b : Binding Unit (List String) => b.withOverride true)
    let marked : List (Declaration Unit (List String)) :=
      [.noted 0 [("first", id)], .noted 1 [rename, mark], .noted 1 [("last", id)]]
    let unmarked : List (Declaration Unit (List String)) :=
      [.noted 0 [("first", id)], .noted 1 [rename], .noted 1 [("last", id)]]
    (∃ m, (build marked []).1 = .ok m ∧ Permitted (transformed marked []) ∧
      m.bindings.map (fun b => (b.key.type.id.code, b.isOverride)) = [(0, true), (1, false)] ∧
      (build marked []).2 = ["first", "rename", "mark", "last"]) ∧
      ∃ done declaration rest, unmarked = done ++ declaration :: rest ∧
        ¬Permitted (transformed (done ++ [declaration]) []) ∧
        (build unmarked []).1 = .error (.duplicate (.of ⟨⟨0⟩, "T"⟩)) ∧
        (build unmarked []).2 = surroundingsAfter (done ++ [declaration]) [] ∧
        (build unmarked []).2 = ["first", "rename"] := by
  intro rename mark marked unmarked
  constructor
  · obtain ⟨hpermitted, hbuilt, -, hnotes⟩ := build_follows_policy marked []
    obtain ⟨-, -, -, hsurroundings⟩ := hbuilt _ rfl
    -- A transformation's note is what it adds to no notes.
    let note (transformation : Transformation Unit (List String)) : String :=
      (transformation (.new (.of ⟨⟨0⟩, "T"⟩) .single (.failing (.provider "none"))) []).2.headD ""
    refine ⟨_, rfl, hpermitted.mp ⟨_, rfl⟩, rfl, hsurroundings.trans (hnotes id note _ ?_)⟩
    simp [marked, rename, mark, note, Declaration.noted, Declaration.chain]
  · obtain ⟨-, -, hrefused, -⟩ := build_follows_policy unmarked []
    obtain ⟨done, declaration, rest, key, hsplit, -, hlast, -, -, -, hsurroundings⟩ := hrefused _ rfl
    exact ⟨done, declaration, rest, hsplit, hlast, rfl, hsurroundings, rfl⟩

end Module

end Injection

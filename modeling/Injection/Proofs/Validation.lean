import Injection.Descriptor
import Mathlib.Data.List.Nodup

/-!
# Which declarations are valid

A declaration is read in order: its own markers, then its arguments, each with its markers. Two things may be wrong
with it: a marker repeats one of its kind, or an argument is marked both as a parameter and as a named dependency.
All that is wrong is listed in the order of reading, without regard to where reading ends; a declaration is valid if
nothing is wrong with it, and is otherwise refused for the first thing that is.
-/

namespace Injection

/-! ### What is wrong with a declaration -/

/-- What a marker on a type is. -/
def DeclarationMarker.kind : DeclarationMarker → MarkerKind
  | scope _ => .scope
  | named _ => .name

/-- What a marker on an argument is. -/
def ArgumentMarker.kind : ArgumentMarker → MarkerKind
  | parameter => .parameter
  | named _ => .name

/-- The slot that a marker on a type fills, for its scope or for its name. -/
def DeclarationMarker.slot : DeclarationMarker → ScopeTag ⊕ Qualifier
  | scope tag => .inl tag
  | named q => .inr q

/-- The slot that a marker on an argument fills, for parameters or for names. -/
def ArgumentMarker.slot : ArgumentMarker → Unit ⊕ Qualifier
  | parameter => .inl ()
  | named q => .inr q

/-- A marker on an argument is known by the slot that it fills and by what it fills it with. -/
theorem ArgumentMarker.slot_injective : Function.Injective ArgumentMarker.slot := by
  intro marker other h
  cases marker <;> cases other <;> simp_all [slot]

/-- So is a marker on a type. -/
theorem DeclarationMarker.slot_injective : Function.Injective DeclarationMarker.slot := by
  intro marker other h
  cases marker <;> cases other <;> simp_all [slot]

/-- The kinds of the markers that repeat an earlier one, when markers of some kinds have been seen before. -/
def MarkerKind.repeated (seen : List MarkerKind) : List MarkerKind → List MarkerKind
  | [] => []
  | kind :: rest => if kind ∈ seen then kind :: repeated seen rest else repeated (kind :: seen) rest

namespace ArgumentDeclaration

/-- The kinds of the markers of an argument, in order. -/
def kinds (a : ArgumentDeclaration) : List MarkerKind := a.markers.map ArgumentMarker.kind

/-- Each marker occurs at most once, and only one of the two. -/
structure Unambiguous (a : ArgumentDeclaration) : Prop where
  parameter : a.kinds.count .parameter ≤ 1
  name : a.kinds.count .name ≤ 1
  exclusive : ¬ (MarkerKind.parameter ∈ a.kinds ∧ MarkerKind.name ∈ a.kinds)

/-- All that is wrong with an argument of a constructor of `target`. -/
def faults (a : ArgumentDeclaration) (target : TypeInfo) : List DescriptorError :=
  (MarkerKind.repeated [] a.kinds).map (.ambiguous (.argument a.name target)) ++
    if MarkerKind.parameter ∈ a.kinds ∧ MarkerKind.name ∈ a.kinds then [.conflict target a.name] else []

/-- The argument is marked as a parameter. -/
def isParameter (a : ArgumentDeclaration) : Bool := .parameter ∈ a.markers

/-- What the argument is for a constructor if it is declared after `count` parameters. -/
def Declares (a : ArgumentDeclaration) (count : Nat) : Argument → Prop
  | .parameter name index => a.isParameter = true ∧ name = a.name ∧ index = count
  | .dependency name type qualifier nullable =>
    a.isParameter = false ∧ name = a.name ∧ type = a.type ∧ nullable = a.nullable ∧
      ∀ q, qualifier = some q ↔ .named q ∈ a.markers

end ArgumentDeclaration

namespace TypeDeclaration

/-- The kinds of the markers of a type, in order. -/
def kinds (d : TypeDeclaration) : List MarkerKind := d.markers.map DeclarationMarker.kind

/-- Each marker occurs at most once on the type, and the arguments are unambiguous. -/
structure Unambiguous (d : TypeDeclaration) : Prop where
  scope : d.kinds.count .scope ≤ 1
  name : d.kinds.count .name ≤ 1
  arguments : ∀ a ∈ d.arguments, a.Unambiguous

/-- All that is wrong with a declaration, in the order of reading. -/
def faults (d : TypeDeclaration) : List DescriptorError :=
  (MarkerKind.repeated [] d.kinds).map (.ambiguous (.type d.target)) ++
    d.arguments.flatMap fun a => a.faults d.target

end TypeDeclaration

/-! ### Reading up to the first fault -/

section Reports

variable {α β : Type}

/-- The outcome is the first of some faults, or, if there is none, a value of which `P` is true. -/
def Reports (faults : List DescriptorError) (P : α → Prop) : Except DescriptorError α → Prop
  | .ok a => faults = [] ∧ P a
  | .error e => faults.head? = some e

variable {faults faults' : List DescriptorError} {P : α → Prop} {Q : β → Prop} {x : Except DescriptorError α}

/-- What is read afterwards reports its faults after those that were found before. -/
theorem Reports.bind {f : α → Except DescriptorError β} (h : Reports faults P x)
    (hf : ∀ a, P a → Reports faults' Q (f a)) : Reports (faults ++ faults') Q (x >>= f) := by
  match x, h with
  | .error e, h =>
    rw [Reports] at h
    exact (List.head?_append).trans (by rw [h]; rfl)
  | .ok a, ⟨hnone, ha⟩ =>
    rw [hnone]
    exact hf a ha

/-- Less may be promised of the value. -/
theorem Reports.mono {P' : α → Prop} (h : Reports faults P x) (hP : ∀ a, P a → P' a) : Reports faults P' x := by
  match x, h with
  | .error e, h => exact h
  | .ok a, ⟨hnone, ha⟩ => exact ⟨hnone, hP a ha⟩

/-- What is refused is refused for the first fault. -/
theorem Reports.error_iff (h : Reports faults P x) {e : DescriptorError} : x = .error e ↔ faults.head? = some e := by
  match x, h with
  | .error e', h =>
    rw [Reports] at h
    simp [h]
  | .ok a, ⟨hnone, _⟩ => simp [hnone]

/-- Something comes out exactly if there is no fault. -/
theorem Reports.ok_iff (h : Reports faults P x) : (∃ a, x = .ok a) ↔ faults = [] := by
  match x, h with
  | .error e', h =>
    rw [Reports] at h
    simp only [reduceCtorEq, exists_false, false_iff]
    rintro rfl
    cases h
  | .ok a, ⟨hnone, _⟩ => simp [hnone]

/-- What comes out is as promised. -/
theorem Reports.of_ok {a : α} (h : Reports faults P (.ok a)) : P a := h.2

end Reports

/-! ### Markers -/

section Markers

variable {M A B : Type} (sort : M → A ⊕ B) (declaration : Declaration) (left right : MarkerKind)

/-- Reads markers of two kinds in order, each into the slot of its kind. -/
def readSlots : List M → Option A × Option B → Except DescriptorError (Option A × Option B)
  | [], slots => .ok slots
  | marker :: rest, (first, second) =>
    match sort marker with
    | .inl a => do readSlots rest (← setOnce first a declaration left, second)
    | .inr b => do readSlots rest (first, ← setOnce second b declaration right)

/-- The kind of a marker. -/
def kindOf (marker : M) : MarkerKind := (sort marker).elim (fun _ => left) fun _ => right

variable {sort declaration left right}

/-- A marker of a kind that has been seen before is a fault; otherwise its kind has been seen from then on. -/
theorem Reports.repeated_cons {α : Type} {P : α → Prop} {x : Except DescriptorError α} {kind : MarkerKind}
    {seen kinds : List MarkerKind} (hseen : kind ∈ seen → x = .error (.ambiguous declaration kind))
    (hfresh : kind ∉ seen → Reports ((MarkerKind.repeated (kind :: seen) kinds).map (.ambiguous declaration)) P x) :
    Reports ((MarkerKind.repeated seen (kind :: kinds)).map (.ambiguous declaration)) P x := by
  unfold MarkerKind.repeated
  split
  · next hmem =>
    rw [hseen hmem]
    rfl
  · next hmem => exact hfresh hmem

/-- Markers are read up to the first one that repeats its kind, and otherwise fill the slots that are free. -/
theorem readSlots_reports_from (hkinds : left ≠ right) (markers : List M) (seen : List MarkerKind)
    (first : Option A) (second : Option B) (hfirst : left ∈ seen ↔ first.isSome = true)
    (hsecond : right ∈ seen ↔ second.isSome = true) :
    Reports ((MarkerKind.repeated seen (markers.map (kindOf sort left right))).map (.ambiguous declaration))
      (fun slots => (∀ a, slots.1 = some a ↔ first = some a ∨ .inl a ∈ markers.map sort) ∧
        ∀ b, slots.2 = some b ↔ second = some b ∨ .inr b ∈ markers.map sort)
      (readSlots sort declaration left right markers (first, second)) := by
  induction markers generalizing seen first second with
  | nil => exact ⟨rfl, by simp, by simp⟩
  | cons marker rest ih =>
    rw [readSlots, List.map_cons, List.map_cons, kindOf]
    cases sort marker with
    | inl a =>
      refine .repeated_cons (fun hseen => ?_) fun hfresh => ?_
      · obtain ⟨filled, rfl⟩ := Option.isSome_iff_exists.mp (hfirst.mp hseen)
        rfl
      · obtain rfl : first = none := by simpa [hfirst] using hfresh
        have hrest := ih (left :: seen) (some a) second (by simp) (by simp [hkinds.symm, hsecond])
        refine hrest.mono fun slots hslots => ?_
        exact ⟨by simp [hslots.1, eq_comm], by simp [hslots.2]⟩
    | inr b =>
      refine .repeated_cons (fun hseen => ?_) fun hfresh => ?_
      · obtain ⟨filled, rfl⟩ := Option.isSome_iff_exists.mp (hsecond.mp hseen)
        rfl
      · obtain rfl : second = none := by simpa [hsecond] using hfresh
        have hrest := ih (right :: seen) first (some b) (by simp [hkinds, hfirst]) (by simp)
        refine hrest.mono fun slots hslots => ?_
        exact ⟨by simp [hslots.1], by simp [hslots.2, eq_comm]⟩

variable (declaration) in
/-- With free slots to begin with, the slots hold what the markers say. -/
theorem readSlots_reports (hkinds : left ≠ right) (hsort : Function.Injective sort) (markers : List M) :
    Reports ((MarkerKind.repeated [] (markers.map (kindOf sort left right))).map (.ambiguous declaration))
      (fun slots => ∀ marker, marker ∈ markers ↔
        (sort marker).elim (fun a => slots.1 = some a) fun b => slots.2 = some b)
      (readSlots sort declaration left right markers (none, none)) := by
  refine (readSlots_reports_from hkinds markers [] none none (by simp) (by simp)).mono fun slots hslots marker => ?_
  obtain ⟨hfirst, hsecond⟩ := hslots
  rw [← List.mem_map_of_injective hsort]
  cases sort marker with
  | inl a => simp [hfirst]
  | inr b => simp [hsecond]

end Markers

/-- The slot of a marker on an argument tells its kind. -/
theorem ArgumentMarker.kindOf_slot : kindOf ArgumentMarker.slot .parameter .name = ArgumentMarker.kind := by
  funext marker
  cases marker <;> rfl

/-- The slot of a marker on a type tells its kind. -/
theorem DeclarationMarker.kindOf_slot : kindOf DeclarationMarker.slot .scope .name = DeclarationMarker.kind := by
  funext marker
  cases marker <;> rfl

/-- No marker repeats an earlier one exactly if all are of different kinds. -/
theorem MarkerKind.repeated_eq_nil {seen kinds : List MarkerKind} :
    repeated seen kinds = [] ↔ kinds.Nodup ∧ ∀ kind ∈ kinds, kind ∉ seen := by
  induction kinds generalizing seen with
  | nil => simp [repeated]
  | cons kind rest ih =>
    unfold repeated
    split
    · next hseen => simp [hseen]
    · next hseen =>
      rw [ih]
      grind

/-- Markers of two kinds are all of different kinds exactly if there is at most one of each. -/
theorem MarkerKind.nodup_iff {kinds : List MarkerKind} {left right : MarkerKind}
    (h : ∀ kind ∈ kinds, kind = left ∨ kind = right) :
    kinds.Nodup ↔ kinds.count left ≤ 1 ∧ kinds.count right ≤ 1 := by
  rw [List.nodup_iff_count_le_one]
  refine ⟨fun hcount => ⟨hcount left, hcount right⟩, fun ⟨hleft, hright⟩ kind => ?_⟩
  by_cases hmem : kind ∈ kinds
  · rcases h kind hmem with rfl | rfl
    · exact hleft
    · exact hright
  · rw [List.count_eq_zero_of_not_mem hmem]
    exact Nat.zero_le _

/-! ### Arguments -/

namespace ArgumentDeclaration

/-- The markers of an argument are read like markers of any sort, by the slots that they fill. -/
theorem readMarkers_eq (declaration : Declaration) (markers : List ArgumentMarker)
    (slots : Option Unit × Option Qualifier) : readMarkers declaration markers slots =
      readSlots ArgumentMarker.slot declaration .parameter .name markers slots := by
  induction markers generalizing slots with
  | nil => rfl
  | cons marker rest ih => cases marker <;> simp only [readMarkers, readSlots, ArgumentMarker.slot, ih]

/-- An argument has a marker of the parameter kind exactly if it is marked as a parameter. -/
theorem parameter_mem_kinds (a : ArgumentDeclaration) : MarkerKind.parameter ∈ a.kinds ↔ a.isParameter = true := by
  unfold kinds isParameter
  rw [List.mem_map, decide_eq_true_iff]
  constructor
  · rintro ⟨marker, hmarker, hkind⟩
    cases marker with
    | parameter => exact hmarker
    | named q => cases hkind
  · exact fun hmarker => ⟨.parameter, hmarker, rfl⟩

/-- An argument has a marker of the name kind exactly if it is marked with some name. -/
theorem name_mem_kinds (a : ArgumentDeclaration) : MarkerKind.name ∈ a.kinds ↔ ∃ q, .named q ∈ a.markers := by
  unfold kinds
  rw [List.mem_map]
  constructor
  · rintro ⟨marker, hmarker, hkind⟩
    cases marker with
    | parameter => cases hkind
    | named q => exact ⟨q, hmarker⟩
  · exact fun ⟨q, hmarker⟩ => ⟨.named q, hmarker, rfl⟩

/-- The markers of an argument are all of different kinds exactly if there is at most one of each. -/
theorem nodup_kinds (a : ArgumentDeclaration) :
    a.kinds.Nodup ↔ a.kinds.count .parameter ≤ 1 ∧ a.kinds.count .name ≤ 1 := by
  refine MarkerKind.nodup_iff fun kind hmem => ?_
  obtain ⟨marker, -, rfl⟩ := List.mem_map.mp hmem
  cases marker <;> simp [ArgumentMarker.kind]

/-- Nothing is wrong with an argument exactly if it is unambiguous. -/
theorem faults_eq_nil (a : ArgumentDeclaration) (target : TypeInfo) : a.faults target = [] ↔ a.Unambiguous := by
  unfold faults
  rw [List.append_eq_nil_iff, List.map_eq_nil_iff, MarkerKind.repeated_eq_nil, nodup_kinds]
  constructor
  · rintro ⟨⟨⟨hparameter, hname⟩, -⟩, hexclusive⟩
    exact ⟨hparameter, hname, by simpa using hexclusive⟩
  · rintro ⟨hparameter, hname, hexclusive⟩
    exact ⟨⟨⟨hparameter, hname⟩, by simp⟩, if_neg hexclusive⟩

/-- An argument is refused for its first fault, and otherwise is what it declares. -/
theorem validate_reports (a : ArgumentDeclaration) (target : TypeInfo) (count : Nat) :
    Reports (a.faults target) (a.Declares count) (a.validate target count) := by
  have hread := readSlots_reports (.argument a.name target) (by decide : MarkerKind.parameter ≠ .name)
    ArgumentMarker.slot_injective a.markers
  rw [ArgumentMarker.kindOf_slot, ← readMarkers_eq] at hread
  refine hread.bind fun slots hslots => ?_
  obtain ⟨isParameter, qualifier⟩ := slots
  have hparameter : isParameter = some () ↔ a.isParameter = true := by
    unfold ArgumentDeclaration.isParameter
    rw [decide_eq_true_iff]
    exact (hslots .parameter).symm
  have hqualifier (q : Qualifier) : qualifier = some q ↔ .named q ∈ a.markers := (hslots (.named q)).symm
  have hname : MarkerKind.name ∈ a.kinds ↔ ∃ q, qualifier = some q := by
    rw [name_mem_kinds]
    exact exists_congr fun q => (hqualifier q).symm
  match isParameter, qualifier with
  | some (), some q =>
    rw [if_pos ⟨a.parameter_mem_kinds.mpr (hparameter.mp rfl), hname.mpr ⟨q, rfl⟩⟩]
    exact rfl
  | some (), none =>
    rw [if_neg (by simp [hname])]
    exact ⟨rfl, hparameter.mp rfl, rfl, rfl⟩
  | none, qualifier =>
    have hnot : a.isParameter = false := by simpa using hparameter
    rw [if_neg (by simp [parameter_mem_kinds, hnot])]
    exact ⟨rfl, hnot, rfl, rfl, rfl, hqualifier⟩

end ArgumentDeclaration

/-! ### Types -/

namespace TypeDeclaration

/-- The markers of a type are read like markers of any sort, by the slots that they fill. -/
theorem readMarkers_eq (target : TypeInfo) (markers : List DeclarationMarker)
    (slots : Option ScopeTag × Option Qualifier) : readMarkers target markers slots =
      readSlots DeclarationMarker.slot (.type target) .scope .name markers slots := by
  induction markers generalizing slots with
  | nil => rfl
  | cons marker rest ih => cases marker <;> simp only [readMarkers, readSlots, DeclarationMarker.slot, ih]

/-- The markers of a type are all of different kinds exactly if there is at most one of each. -/
theorem nodup_kinds (d : TypeDeclaration) :
    d.kinds.Nodup ↔ d.kinds.count .scope ≤ 1 ∧ d.kinds.count .name ≤ 1 := by
  refine MarkerKind.nodup_iff fun kind hmem => ?_
  obtain ⟨marker, -, rfl⟩ := List.mem_map.mp hmem
  cases marker <;> simp [DeclarationMarker.kind]

/-- Nothing is wrong with a declaration exactly if it is unambiguous. -/
theorem faults_eq_nil (d : TypeDeclaration) : d.faults = [] ↔ d.Unambiguous := by
  unfold faults
  rw [List.append_eq_nil_iff, List.map_eq_nil_iff, MarkerKind.repeated_eq_nil, nodup_kinds, List.flatMap_eq_nil_iff]
  simp only [ArgumentDeclaration.faults_eq_nil]
  constructor
  · rintro ⟨⟨⟨hscope, hname⟩, -⟩, harguments⟩
    exact ⟨hscope, hname, harguments⟩
  · rintro ⟨hscope, hname, harguments⟩
    exact ⟨⟨⟨hscope, hname⟩, by simp⟩, harguments⟩

/-- Arguments are what is declared, one by one; `count` parameters are declared before them. -/
def Declare (declared : List ArgumentDeclaration) (count : Nat) (arguments : List Argument) : Prop :=
  arguments.length = declared.length ∧ ∀ (position : Nat) (a : ArgumentDeclaration), declared[position]? = some a →
    ∃ argument, arguments[position]? = some argument ∧
      a.Declares (count + (declared.take position).countP ArgumentDeclaration.isParameter) argument

/-- Arguments are read in order up to the first that is refused. -/
theorem validateArguments_reports (target : TypeInfo) (declared : List ArgumentDeclaration) (count : Nat) :
    Reports (declared.flatMap fun a => a.faults target) (Declare declared count)
      (validateArguments target declared count) := by
  induction declared generalizing count with
  | nil => exact ⟨rfl, rfl, by simp⟩
  | cons a rest ih =>
    unfold validateArguments
    rw [List.flatMap_cons]
    refine (a.validate_reports target count).bind fun argument hargument => ?_
    have hrest (next : Nat) (hnext : next = count + if a.isParameter = true then 1 else 0) :
        Reports (rest.flatMap fun a => a.faults target) (Declare (a :: rest) count)
          (do return argument :: (← validateArguments target rest next)) := by
      rw [← List.append_nil (rest.flatMap _)]
      refine (ih next).bind fun arguments ⟨hlength, harguments⟩ =>
        ⟨rfl, congrArg (· + 1) hlength, fun position b hb => ?_⟩
      cases position with
      | zero =>
        obtain rfl := Option.some.inj hb
        exact ⟨argument, rfl, hargument⟩
      | succ position =>
        obtain ⟨other, hother, hdeclares⟩ := harguments position b hb
        refine ⟨other, hother, ?_⟩
        rwa [List.take_succ_cons, List.countP_cons, Nat.add_comm (List.countP _ _), ← Nat.add_assoc, ← hnext]
    refine hrest _ ?_
    cases argument with
    | parameter name index => simp [hargument.1]
    | dependency name type qualifier nullable => simp [hargument.1]

/-- A descriptor holds what a type is declared as. -/
structure Describes (d : TypeDeclaration) (descriptor : Descriptor) : Prop where
  target : descriptor.target = d.target
  factoryName : descriptor.factoryName = d.factoryName.getD (d.target.shortName ++ "Factory")
  visibility : descriptor.visibility = d.visibility
  isSingleton : descriptor.isSingleton = d.isSingleton
  scope : ∀ tag, descriptor.scope = some tag ↔ .scope tag ∈ d.markers
  qualifier : ∀ q, descriptor.qualifier = some q ↔ .named q ∈ d.markers
  arguments : Declare d.arguments 0 descriptor.arguments

/-- A declaration is refused for its first fault, and otherwise its descriptor holds what is declared. -/
theorem validate_reports (d : TypeDeclaration) : Reports d.faults d.Describes d.validate := by
  have hread := readSlots_reports (.type d.target) (by decide : MarkerKind.scope ≠ .name)
    DeclarationMarker.slot_injective d.markers
  rw [DeclarationMarker.kindOf_slot, ← readMarkers_eq] at hread
  unfold validate
  refine hread.bind fun slots hslots => ?_
  obtain ⟨scope, qualifier⟩ := slots
  rw [← List.append_nil (d.arguments.flatMap _)]
  exact (validateArguments_reports d.target d.arguments 0).bind fun arguments harguments =>
    ⟨rfl, rfl, rfl, rfl, rfl, fun tag => (hslots (.scope tag)).symm, fun q => (hslots (.named q)).symm, harguments⟩

/-- A declaration is valid exactly if every marker occurs at most once, on the type and on each argument, and no
argument is marked both as a parameter and as a named dependency. The descriptor then has the declared arguments in
order: those that are marked so are parameters, numbered by the parameters before them, and the others are
dependencies as declared. Otherwise the declaration is refused for its first fault. -/
theorem validate_exact (d : TypeDeclaration) :
    ((∃ descriptor, d.validate = .ok descriptor) ↔ d.Unambiguous) ∧
      (∀ descriptor, d.validate = .ok descriptor → d.Describes descriptor) ∧
      ∀ e, d.validate = .error e ↔ d.faults.head? = some e := by
  have hreports := d.validate_reports
  refine ⟨hreports.ok_iff.trans d.faults_eq_nil, fun descriptor hvalid => ?_, fun e => hreports.error_iff⟩
  rw [hvalid] at hreports
  exact hreports.of_ok

/-- A type with two dependencies and two parameters. With one more argument, which is named twice and marked as a
parameter as well, it is refused for the second name. -/
theorem validate_exact_repository :
    let database : TypeInfo := ⟨⟨1⟩, "Database"⟩
    let number : TypeInfo := ⟨⟨2⟩, "u32"⟩
    let repository : TypeDeclaration :=
      { TypeDeclaration.new ⟨⟨0⟩, "Repository"⟩ with
        markers := [.scope DefaultScope.request.tag, .named (.name "main")]
        arguments := [⟨"primary", database, false, [.named (.name "primary")]⟩, ⟨"user", number, false, [.parameter]⟩,
          ⟨"replica", database, true, []⟩, ⟨"shard", number, false, [.parameter]⟩] }
    let misdeclared : TypeDeclaration :=
      repository.withArgument ⟨"key", number, false, [.named (.name "a"), .parameter, .named (.name "b")]⟩
    (∃ descriptor, repository.validate = .ok descriptor ∧ repository.Unambiguous ∧ repository.Describes descriptor ∧
      descriptor.arguments = [.dependency "primary" database (some (.name "primary")) false, .parameter "user" 0,
        .dependency "replica" database none true, .parameter "shard" 1]) ∧
      ∃ fault other, misdeclared.faults = [fault, other] ∧ misdeclared.validate = .error fault ∧
        fault = .ambiguous (.argument "key" ⟨⟨0⟩, "Repository"⟩) .name := by
  intro database number repository misdeclared
  obtain ⟨hvalid, hdescribes, -⟩ := repository.validate_exact
  obtain ⟨-, -, herror⟩ := misdeclared.validate_exact
  exact ⟨⟨_, rfl, hvalid.mp ⟨_, rfl⟩, hdescribes _ rfl, rfl⟩, _, _, rfl, (herror _).mpr rfl, rfl⟩

end TypeDeclaration

end Injection

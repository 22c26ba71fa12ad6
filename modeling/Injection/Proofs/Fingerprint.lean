import Injection.Proofs.Multiplicity
import Injection.Script.Value
import Mathlib.Algebra.Group.Nat.Defs
import Mathlib.Data.List.Forall2

/-!
# The bytes that identify a list of parameters

The values of a list are written one after the other, without anything between them. Still no two lists are written
alike: the bytes of a type are of one length, so it is known where the bytes of the value begin, and no value of a type
is written as the beginning of what another is written as, so it is known where they end. The values of scripts keep to
that: numbers have a fixed width, texts are closed by a byte that occurs in none, and sequences begin with their length.
-/

namespace Injection

variable {α β V : Type}

/-- Among some values, none is written as the beginning of what another one is written as. -/
def SelfDelimiting (write : α → List UInt8) (among : α → Prop) : Prop :=
  ∀ ⦃a b⦄, among a → among b → write a <+: write b → a = b

namespace SelfDelimiting

variable {write : α → List UInt8} {among : α → Prop}

/-- It is known where a value ends, whatever comes after it. -/
theorem append_inj (h : SelfDelimiting write among) {a b : α} (ha : among a) (hb : among b) {after after' : List UInt8}
    (heq : write a ++ after = write b ++ after') : a = b ∧ after = after' := by
  have hsame : a = b := by
    have hfirst : write a <+: write b ++ after' := heq ▸ List.prefix_append _ _
    rcases List.prefix_or_prefix_of_prefix hfirst (List.prefix_append _ _) with hbegins | hbegins
    · exact h ha hb hbegins
    · exact (h hb ha hbegins).symm
  subst hsame
  exact ⟨rfl, List.append_cancel_left heq⟩

/-- It is known where as many values end, written one after the other. -/
theorem flatMap_append_inj (h : SelfDelimiting write among) {as bs : List α} (has : ∀ a ∈ as, among a)
    (hbs : ∀ b ∈ bs, among b) (hlength : as.length = bs.length) {after after' : List UInt8}
    (heq : as.flatMap write ++ after = bs.flatMap write ++ after') : as = bs ∧ after = after' := by
  induction as generalizing bs with
  | nil =>
    obtain rfl := List.length_eq_zero_iff.mp hlength.symm
    exact ⟨rfl, heq⟩
  | cons a as ih =>
    obtain ⟨b, bs, rfl⟩ := List.exists_cons_of_length_eq_add_one hlength.symm
    rw [List.forall_mem_cons] at has hbs
    rw [List.flatMap_cons, List.flatMap_cons, List.append_assoc, List.append_assoc] at heq
    obtain ⟨rfl, hrest⟩ := h.append_inj has.1 hbs.1 heq
    obtain ⟨rfl, hafter⟩ := ih has.2 hbs.2 (Nat.succ.inj hlength) hrest
    exact ⟨rfl, hafter⟩

/-- If every value leaves something behind, it is known how many were written. -/
theorem flatMap_inj (h : SelfDelimiting write among) (hsome : ∀ a, among a → write a ≠ []) {as bs : List α}
    (has : ∀ a ∈ as, among a) (hbs : ∀ b ∈ bs, among b) (heq : as.flatMap write = bs.flatMap write) : as = bs := by
  wlog hlength : as.length ≤ bs.length generalizing as bs
  · exact (this hbs has heq.symm (Nat.le_of_not_le hlength)).symm
  have hsplit : bs = bs.take as.length ++ bs.drop as.length := (List.take_append_drop _ _).symm
  have hwritten : as.flatMap write ++ [] = (bs.take as.length).flatMap write ++ (bs.drop as.length).flatMap write := by
    rw [List.append_nil, heq, ← List.flatMap_append, ← hsplit]
  obtain ⟨hfirst, hrest⟩ := h.flatMap_append_inj has (fun b hb => hbs b (List.mem_of_mem_take hb))
    (by rw [List.length_take_of_le hlength]) hwritten
  have hnone : bs.drop as.length = [] := by
    refine List.eq_nil_iff_forall_not_mem.mpr fun b hb => hsome b (hbs b (List.mem_of_mem_drop hb)) ?_
    exact List.flatMap_eq_nil_iff.mp hrest.symm b hb
  rw [hsplit, hnone, List.append_nil]
  exact hfirst

/-- Values that are told apart by what they are written as are, if all are written with one length. -/
theorem of_length {count : Nat} (hlength : ∀ a, among a → (write a).length = count)
    (hinj : ∀ a b, among a → among b → write a = write b → a = b) : SelfDelimiting write among :=
  fun a b ha hb hbegins => hinj a b ha hb (hbegins.eq_of_length ((hlength a ha).trans (hlength b hb).symm))

/-- Values that are told apart by what they are written as are, if a byte that occurs in none closes them. -/
theorem closed {last : UInt8} (hnever : ∀ a, among a → last ∉ write a)
    (hinj : ∀ a b, among a → among b → write a = write b → a = b) :
    SelfDelimiting (fun a => write a ++ [last]) among := by
  rintro a b ha hb ⟨after, hbegins⟩
  have hsplit : write b ++ last :: [] = write a ++ last :: after := by simpa using hbegins.symm
  have hsame := ((List.append_cons_inj_of_notMem (hnever b hb) List.not_mem_nil).mp hsplit).1
  exact hinj a b ha hb hsame.symm

/-- What is written in another's stead is, if it is told apart by that. -/
theorem comp (h : SelfDelimiting write among) {f : β → α} {among' : β → Prop} (hamong : ∀ b, among' b → among (f b))
    (hinj : ∀ b b', among' b → among' b' → f b = f b' → b = b') : SelfDelimiting (fun b => write (f b)) among' :=
  fun b b' hb hb' hbegins => hinj b b' hb hb' (h (hamong b hb) (hamong b' hb') hbegins)

/-- A value followed by one of a sort that depends on it. -/
theorem append (h : SelfDelimiting write among) {write' : β → List UInt8} {among' : α → β → Prop}
    (h' : ∀ a, among a → SelfDelimiting write' (among' a)) :
    SelfDelimiting (fun pair : α × β => write pair.1 ++ write' pair.2) fun pair => among pair.1 ∧ among' pair.1 pair.2 := by
  rintro ⟨a, b⟩ ⟨a', b'⟩ ⟨ha, hb⟩ ⟨ha', hb'⟩ ⟨after, hbegins⟩
  dsimp only at ha hb ha' hb' hbegins
  rw [List.append_assoc] at hbegins
  obtain ⟨rfl, hrest⟩ := h.append_inj ha ha' hbegins
  rw [h' a ha hb hb' ⟨after, hrest⟩]

end SelfDelimiting

/-! ### Numbers and types -/

/-- A number is written in as many bytes as it is to be written in. -/
theorem Digest.length_littleEndian (count n : Nat) : (littleEndian count n).length = count := by
  induction count generalizing n with
  | zero => rfl
  | succ count ih => rw [littleEndian, List.length_cons, ih]

/-- As many bytes tell apart the numbers that fit into them. -/
theorem Digest.littleEndian_inj {count n m : Nat} (hn : n < 256 ^ count) (hm : m < 256 ^ count)
    (h : littleEndian count n = littleEndian count m) : n = m := by
  induction count generalizing n m with
  | zero => omega
  | succ count ih =>
    rw [littleEndian, littleEndian, List.cons.injEq] at h
    have hlow : n % 256 = m % 256 := by simpa using congrArg UInt8.toNat h.1
    have hhigh : n / 256 = m / 256 := ih (by omega) (by omega) h.2
    omega

/-- Numbers that fit into as many bytes are written so that it is known where they end. -/
theorem Digest.selfDelimiting_littleEndian (count : Nat) : SelfDelimiting (littleEndian count) (· < 256 ^ count) :=
  .of_length (fun _ _ => length_littleEndian _ _) fun _ _ => littleEndian_inj

/-- Different types write different bytes, and all types write as many. -/
theorem TypeId.selfDelimiting_bytes : SelfDelimiting TypeId.bytes fun _ => True :=
  (Digest.selfDelimiting_littleEndian 8).comp (fun type _ => type.code.toNat_lt) fun _ _ _ _ hcode =>
    congrArg TypeId.mk (UInt64.toNat_inj.mp hcode)

/-! ### Lists of parameters -/

section Parameters

/-- What tells parameters apart: the identity of the type, whatever it is called, and the value. -/
def Parameter.identity (p : Parameter V) : TypeId × V := (p.type.id, p.value)

/-- Parameters are the same exactly if they have the same identities in the same order. -/
theorem Parameters.same_iff {ps qs : Parameters V} :
    ps.Same qs ↔ ps.map Parameter.identity = qs.map Parameter.identity := by
  rw [← List.forall₂_eq_eq_eq, List.forall₂_map_left_iff, List.forall₂_map_right_iff]
  simp only [Parameter.identity, Prod.mk.injEq]
  rfl

variable [Hashed V]

/-- The bytes of a list are those of the identities of its parameters. -/
theorem Parameters.flatMap_stream (ps : Parameters V) : ps.flatMap Parameter.stream =
    (ps.map Parameter.identity).flatMap fun pair => pair.1.bytes ++ Hashed.bytes pair.2 := by
  rw [List.flatMap_map]
  rfl

/-- Parameters of the same types and values write the same bytes. If no value of a type is written as the beginning of
what another value of the type is written as, no others do: whatever their lengths and types, the bytes of two lists are
the same only if the lists have as many parameters, of the same types and values at every position. -/
theorem Parameters.stream_eq_iff {has : TypeId → V → Prop} (hvalues : ∀ type, SelfDelimiting Hashed.bytes (has type))
    {ps qs : Parameters V} (hps : ∀ p ∈ ps, has p.type.id p.value) (hqs : ∀ q ∈ qs, has q.type.id q.value) :
    ps.stream = qs.stream ↔ ps.Same qs := by
  refine ⟨fun h => ?_, Same.stream_eq⟩
  have hparameters := TypeId.selfDelimiting_bytes.append fun type _ => hvalues type
  have hsome (pair : TypeId × V) : pair.1.bytes ++ Hashed.bytes pair.2 ≠ [] := by
    intro hnone
    have hlength := congrArg List.length hnone
    simp [TypeId.bytes, Digest.length_littleEndian] at hlength
  have hamong {rs : Parameters V} (hrs : ∀ r ∈ rs, has r.type.id r.value) :
      ∀ pair ∈ rs.map Parameter.identity, True ∧ has pair.1 pair.2 := by
    intro pair hpair
    obtain ⟨r, hr, rfl⟩ := List.mem_map.mp hpair
    exact ⟨trivial, hrs r hr⟩
  -- The lengths at the beginning take as many bytes, so the rest is the same.
  have hrest : ps.flatMap Parameter.stream = qs.flatMap Parameter.stream :=
    List.append_inj_right h (by rw [Digest.length_littleEndian, Digest.length_littleEndian])
  rw [flatMap_stream, flatMap_stream] at hrest
  exact same_iff.mpr (hparameters.flatMap_inj (fun pair _ => hsome pair) (hamong hps) (hamong hqs) hrest)

end Parameters

/-! ### The values of scripts -/

namespace Script.Value

/-- The sorts of values that are passed as parameters. -/
inductive Form where
  | word (format : WordFormat)
  | truth
  | char
  | text
  | literal
  | bytes
  | words
  | texts
  | option
  | unit
  | pair

/-- The values of a sort. Numbers fit into their format, and a word can count the members of a sequence. -/
inductive IsOf : Form → Value → Prop
  | word {format : WordFormat} {n : Int} : format.wrap n = n → IsOf (.word format) (.word format n)
  | truth (b : Bool) : IsOf .truth (.truth b)
  | char (c : Char) : IsOf .char (.char c)
  | text (s : String) : IsOf .text (.text s)
  | literal (s : String) : IsOf .literal (.literal s)
  | bytes {bs : List UInt8} : bs.length < 256 ^ 8 → IsOf .bytes (.bytes bs)
  | words {ns : List UInt32} : ns.length < 256 ^ 8 → IsOf .words (.words ns)
  | texts {ss : List String} : ss.length < 256 ^ 8 → IsOf .texts (.texts ss)
  | option (n : Option UInt32) : IsOf .option (.option n)
  | unit : IsOf .unit .unit
  | pair (b : UInt8) (s : String) : IsOf .pair (.pair b s)

/-- The bytes of an array, read one after the other. -/
theorem toList_eq_data (bytes : ByteArray) : bytes.toList = bytes.data.toList := by
  have hloop (i : Nat) (read : List UInt8) (hread : read.reverse = bytes.data.toList.take i) :
      ByteArray.toList.loop bytes i read = bytes.data.toList := by
    fun_induction ByteArray.toList.loop bytes i read with
    | case1 i read hlt ih =>
      have hi : i < bytes.data.toList.length := hlt
      have hget : bytes.get! i = bytes.data.toList[i] := by
        show bytes.data[i]! = _
        rw [getElem!_pos bytes.data i hlt, Array.getElem_toList]
      apply ih
      rw [List.reverse_cons, hread, hget, List.take_append_getElem hi]
    | case2 i read hge =>
      rw [hread]
      exact List.take_of_length_le (Nat.le_of_not_lt hge)
  exact hloop 0 [] rfl

/-- No byte of a character has all bits set. -/
theorem ne_of_mem_utf8EncodeChar {c : Char} {b : UInt8} (hb : b ∈ String.utf8EncodeChar c) : b ≠ 0xff := by
  have hne {n : Nat} (hn : n < 0xff) : UInt8.ofNat n ≠ 0xff := by
    intro heq
    have hvalue := congrArg UInt8.toNat heq
    rw [UInt8.toNat_ofNat_of_lt' (show n < 256 by omega)] at hvalue
    exact Nat.ne_of_lt hn hvalue
  unfold String.utf8EncodeChar at hb
  dsimp only at hb
  -- One, two, three or four bytes.
  split at hb
  · obtain rfl := List.mem_singleton.mp hb
    exact hne (by omega)
  split at hb
  · simp only [List.mem_cons, List.not_mem_nil, or_false] at hb
    rcases hb with rfl | rfl <;> exact hne (by omega)
  split at hb
  · simp only [List.mem_cons, List.not_mem_nil, or_false] at hb
    rcases hb with rfl | rfl | rfl <;> exact hne (by omega)
  · simp only [List.mem_cons, List.not_mem_nil, or_false] at hb
    rcases hb with rfl | rfl | rfl | rfl <;> exact hne (by omega)

/-- The byte that closes a text occurs in no text. -/
theorem not_mem_toUTF8 (s : String) : 0xff ∉ s.toUTF8.toList := by
  have hbytes : s.toUTF8.toList = s.toList.flatMap String.utf8EncodeChar := by
    rw [toList_eq_data, String.toUTF8_eq_toByteArray, ← String.utf8Encode_toList, List.utf8Encode,
      List.toList_data_toByteArray]
  rw [hbytes, List.mem_flatMap]
  rintro ⟨c, -, hmem⟩
  exact ne_of_mem_utf8EncodeChar hmem rfl

/-- Texts are written so that it is known where they end. -/
theorem selfDelimiting_textBytes : SelfDelimiting textBytes fun _ => True := by
  refine .closed (fun s _ => not_mem_toUTF8 s) fun s s' _ _ h => ?_
  rw [toList_eq_data, toList_eq_data, Array.toList_inj] at h
  exact String.toByteArray_inj.mp (ByteArray.ext h)

/-- A sequence that is not too long is, if its members are: first it says how many they are. -/
theorem selfDelimiting_sequenceBytes {write : α → List UInt8} {among : α → Prop} (h : SelfDelimiting write among) :
    SelfDelimiting (sequenceBytes write) fun as => as.length < 256 ^ 8 ∧ ∀ a ∈ as, among a := by
  rintro as bs ⟨hshort, has⟩ ⟨hshort', hbs⟩ ⟨after, hbegins⟩
  rw [sequenceBytes, sequenceBytes, List.append_assoc] at hbegins
  obtain ⟨hlength, hmembers⟩ := (Digest.selfDelimiting_littleEndian 8).append_inj hshort hshort' hbegins
  rw [← List.append_nil (bs.flatMap write)] at hmembers
  exact (h.flatMap_append_inj has hbs hlength hmembers).1

/-- A number of a format, written with as many bytes as the format has. -/
theorem selfDelimiting_word (format : WordFormat) :
    SelfDelimiting (fun n : Int => Digest.littleEndian format.bytes (n % (1 <<< (8 * format.bytes) : Nat)).toNat)
      fun n => format.wrap n = n := by
  set size : Nat := 1 <<< (8 * format.bytes)
  have hsize : size = 256 ^ format.bytes := (Nat.one_shiftLeft _).trans (Nat.pow_mul 2 8 _)
  have hpos : (0 : Int) < size := Int.natCast_pos.mpr (hsize ▸ Nat.pow_pos (by decide))
  have hwrap (n : Int) : format.wrap (n % size) = format.wrap n := by
    unfold WordFormat.wrap
    split
    · exact Int.emod_bmod _ _
    · exact Int.emod_emod _ _
  have hlow (n : Int) : 0 ≤ n % (size : Int) := Int.emod_nonneg n (Int.ne_of_gt hpos)
  refine (Digest.selfDelimiting_littleEndian format.bytes).comp (fun n _ => ?_) fun n m hn hm h => ?_
  · have hhigh := Int.emod_lt_of_pos n hpos
    have hnonneg := hlow n
    omega
  · have hsame : n % (size : Int) = m % size := by
      have hnonneg := hlow n
      have hnonneg' := hlow m
      omega
    calc n = format.wrap (n % size) := by rw [hwrap, hn]
      _ = format.wrap (m % size) := by rw [hsame]
      _ = m := by rw [hwrap, hm]

/-- A word of four bytes. -/
theorem selfDelimiting_uint32 : SelfDelimiting (fun n : UInt32 => Digest.littleEndian 4 n.toNat) fun _ => True :=
  (Digest.selfDelimiting_littleEndian 4).comp (fun n _ => n.toNat_lt) fun _ _ _ _ => UInt32.toNat_inj.mp

/-- Bytes are written as they are. -/
theorem selfDelimiting_byte : SelfDelimiting (fun b : UInt8 => [b]) fun _ => True :=
  .of_length (fun _ _ => rfl) fun _ _ _ _ => List.singleton_inj.mp

/-- Truth values are written as one of two bytes. -/
theorem selfDelimiting_truth : SelfDelimiting (fun b : Bool => [if b then (1 : UInt8) else 0]) fun _ => True :=
  .of_length (fun _ _ => rfl) (by decide)

/-- Characters are written as their numbers, all in as many bytes. -/
theorem selfDelimiting_char : SelfDelimiting (fun c : Char => Digest.littleEndian 4 c.toNat) fun _ => True :=
  selfDelimiting_uint32.comp (fun _ _ => trivial) fun _ _ _ _ => Char.ext

/-- A word says whether there is a number, so nothing is not taken for the beginning of something. -/
theorem selfDelimiting_option : SelfDelimiting (fun n : Option UInt32 => hashBytes (.option n)) fun _ => True := by
  have hheader := Digest.selfDelimiting_littleEndian 8
  rintro (_ | n) (_ | n') _ _ ⟨after, hbegins⟩
  · rfl
  · exact absurd (hheader.append_inj (by decide) (by decide) hbegins).1 (by decide)
  · dsimp only [hashBytes] at hbegins
    rw [List.append_assoc, ← List.append_nil (Digest.littleEndian 8 0)] at hbegins
    exact absurd (hheader.append_inj (by decide) (by decide) hbegins).1 (by decide)
  · dsimp only [hashBytes] at hbegins
    rw [List.append_assoc] at hbegins
    have hnumber := (hheader.append_inj (by decide) (by decide) hbegins).2
    rw [selfDelimiting_uint32 trivial trivial ⟨after, hnumber⟩]

/-- No value of a sort is written as the beginning of what another value of the sort is written as. -/
theorem selfDelimiting (form : Form) : SelfDelimiting Hashed.bytes (IsOf form) := by
  intro a b ha hb hbegins
  change hashBytes a <+: hashBytes b at hbegins
  cases ha with
  | word hn =>
    cases hb with
    | word hm => rw [selfDelimiting_word _ hn hm hbegins]
  | truth b =>
    cases hb with
    | truth b' => rw [selfDelimiting_truth trivial trivial hbegins]
  | char c =>
    cases hb with
    | char c' => rw [selfDelimiting_char trivial trivial hbegins]
  | text s =>
    cases hb with
    | text s' => rw [selfDelimiting_textBytes trivial trivial hbegins]
  | literal s =>
    cases hb with
    | literal s' => rw [selfDelimiting_textBytes trivial trivial hbegins]
  | bytes hshort =>
    cases hb with
    | bytes hshort' =>
      rw [selfDelimiting_sequenceBytes selfDelimiting_byte ⟨hshort, fun _ _ => trivial⟩ ⟨hshort', fun _ _ => trivial⟩
        hbegins]
  | words hshort =>
    cases hb with
    | words hshort' =>
      rw [selfDelimiting_sequenceBytes selfDelimiting_uint32 ⟨hshort, fun _ _ => trivial⟩
        ⟨hshort', fun _ _ => trivial⟩ hbegins]
  | texts hshort =>
    cases hb with
    | texts hshort' =>
      rw [selfDelimiting_sequenceBytes selfDelimiting_textBytes ⟨hshort, fun _ _ => trivial⟩
        ⟨hshort', fun _ _ => trivial⟩ hbegins]
  | option n =>
    cases hb with
    | option n' => rw [selfDelimiting_option trivial trivial hbegins]
  | unit =>
    cases hb with
    | unit => rfl
  | pair b s =>
    cases hb with
    | pair b' s' =>
      have hpair := selfDelimiting_byte.append fun _ _ => selfDelimiting_textBytes
      obtain ⟨rfl, rfl⟩ := Prod.mk.inj (@hpair (b, s) (b', s') ⟨trivial, trivial⟩ ⟨trivial, trivial⟩ hbegins)
      rfl

end Script.Value

section Texts

open Script

/-- Two texts after a number are told from two texts that join to the same, and not from the same texts under another
name of their type. -/
theorem Parameters.stream_eq_iff_texts :
    let form (type : TypeId) : Value.Form := if type.code = 1 then .text else .word ⟨1, false⟩
    let text (name s : String) : Parameter Value := ⟨⟨⟨1⟩, name⟩, .text s⟩
    let list (name s s' : String) : Parameters Value := [⟨⟨⟨2⟩, "u8"⟩, .word ⟨1, false⟩ 2⟩, text name s, text name s']
    let given := list "String" "ab" "c"
    let cut := list "String" "a" "bc"
    let renamed := list "alloc::string::String" "ab" "c"
    (∀ p ∈ given, Value.IsOf (form p.type.id) p.value) ∧ (∀ p ∈ cut, Value.IsOf (form p.type.id) p.value) ∧
      (∀ p ∈ renamed, Value.IsOf (form p.type.id) p.value) ∧ given.stream ≠ cut.stream ∧
      given.stream = renamed.stream := by
  intro form text list given cut renamed
  have hform (name s s' : String) : ∀ p ∈ list name s s', Value.IsOf (form p.type.id) p.value := by
    simp only [list, text, List.forall_mem_cons]
    exact ⟨.word (by decide), .text s, .text s', List.forall_mem_nil _⟩
  have hvalues (type : TypeId) := Value.selfDelimiting (form type)
  refine ⟨hform _ _ _, hform _ _ _, hform _ _ _, fun h => ?_, ?_⟩
  · have hsame := (Parameters.stream_eq_iff hvalues (hform _ _ _) (hform _ _ _)).mp h
    have htexts := (List.forall₂_cons.mp (List.forall₂_cons.mp hsame).2).1.2
    exact absurd (Value.text.inj htexts) (by decide)
  · have hsame : given.Same renamed := .cons ⟨rfl, rfl⟩ (.cons ⟨rfl, rfl⟩ (.cons ⟨rfl, rfl⟩ .nil))
    exact (Parameters.stream_eq_iff hvalues (hform _ _ _) (hform _ _ _)).mpr hsame

end Texts

end Injection

import Injection.Digest
import Injection.TypeInfo

/-!
# Positional parameters

A caller may pass an ordered list of values to the definition that serves its request. The list is
fingerprinted structurally: its length, then for each value the identity of its type followed by
the bytes the value writes for itself. Equal lists always have equal fingerprints.
-/

namespace Injection

/-- Values that can be fingerprinted: each writes a byte string for itself. -/
class Hashed (V : Type) where
  bytes : V → List UInt8

/-- One positional value together with its type. -/
structure Parameter (V : Type) where
  type : TypeInfo
  value : V

/-- The values passed to a definition, in order. -/
abbrev Parameters (V : Type) := List (Parameter V)

variable {V : Type}

/-- The bytes that identify a type; eight for every type. -/
def TypeId.bytes (t : TypeId) : List UInt8 := Digest.littleEndian 8 t.code.toNat

/-- The bytes one value contributes: its type's, then its own. -/
def Parameter.stream [Hashed V] (p : Parameter V) : List UInt8 :=
  p.type.id.bytes ++ Hashed.bytes p.value

namespace Parameters

/-- The byte string that is digested for a list of values. -/
def stream [Hashed V] (ps : Parameters V) : List UInt8 :=
  Digest.littleEndian 8 ps.length ++ ps.flatMap Parameter.stream

/-- Structural fingerprint of a list of values, types included. -/
def hashKey [Hashed V] (ps : Parameters V) : UInt64 := Digest.ofBytes ps.stream

/-- The value at an index, if it is there and has exactly the given type. -/
def typed? (ps : Parameters V) (type : TypeInfo) (index : Nat) : Option V :=
  match ps[index]? with
  | some p => if p.type.id = type.id then some p.value else none
  | none => none

end Parameters

end Injection

/-!
# Digests of byte strings

The 64-bit SeaHash digest of a list of bytes: four lanes take turns absorbing the little-endian
eight-byte words of the input, and the result mixes the lanes with the length.
-/

namespace Injection.Digest

/-- The `count` lowest bytes of a number, lowest first. -/
def littleEndian : (count : Nat) → Nat → List UInt8
  | 0, _ => []
  | count + 1, n => UInt8.ofNat (n % 256) :: littleEndian count (n / 256)

/-- The number whose bytes, lowest first, are given. -/
def ofLittleEndian : List UInt8 → UInt64
  | [] => 0
  | b :: rest => b.toUInt64 ||| (ofLittleEndian rest <<< 8)

/-- Spreads every input bit over the whole word; a bijection of the words. -/
def diffuse (x : UInt64) : UInt64 :=
  let x := x * 0x6eed0e9da4d94a4f
  let x := x ^^^ ((x >>> 32) >>> (x >>> 60))
  x * 0x6eed0e9da4d94a4f

/-- The four lanes; the first is the next to absorb. -/
structure Lanes where
  first : UInt64
  second : UInt64
  third : UInt64
  fourth : UInt64

namespace Lanes

/-- The lanes before any input. -/
def initial : Lanes :=
  ⟨0x16f11fe89b0d677c, 0xb480a793d8e6c86c, 0x6fe2e5aaf078ebc9, 0x14f994a4c5259381⟩

/-- The first lane absorbs a word and goes to the back. -/
def absorb (lanes : Lanes) (word : UInt64) : Lanes :=
  ⟨lanes.second, lanes.third, lanes.fourth, diffuse (lanes.first ^^^ word)⟩

/-- Absorbs the bytes word by word; the last word may be short. -/
def absorbAll (lanes : Lanes) : List UInt8 → Lanes
  | [] => lanes
  | a :: b :: c :: d :: e :: f :: g :: h :: rest =>
    (lanes.absorb (ofLittleEndian [a, b, c, d, e, f, g, h])).absorbAll rest
  | short => lanes.absorb (ofLittleEndian short)

end Lanes

/-- The digest of a byte string. -/
def ofBytes (bytes : List UInt8) : UInt64 :=
  let lanes := Lanes.initial.absorbAll bytes
  diffuse (lanes.first ^^^ lanes.second ^^^ lanes.third ^^^ lanes.fourth
    ^^^ UInt64.ofNat bytes.length)

end Injection.Digest

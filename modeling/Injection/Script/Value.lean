import Injection.Catalog

/-!
# The values of scripts

Scripts wire together nodes, which record what they were made from, and plain values of a few
sorts. Besides objects, a node may record facts about the resolution it was made in.
-/

namespace Injection.Script

/-- A format of whole numbers: how many bytes they take and whether they may be negative. -/
structure WordFormat where
  bytes : Nat
  signed : Bool
deriving DecidableEq

/-- The number of the format that agrees with `n` up to a multiple of the number of words. -/
def WordFormat.wrap (format : WordFormat) (n : Int) : Int :=
  let size : Nat := 1 <<< (8 * format.bytes)
  if format.signed then n.bmod size else n % size

mutual

/-- What an object carries. -/
inductive Value where
  /-- A label and what the object was made from. -/
  | node (tag : String) (parts : List Item)
  | word (format : WordFormat) (n : Int)
  | truth (b : Bool)
  | char (c : Char)
  | text (s : String)
  /-- Text that belongs to nobody and is never changed. -/
  | literal (s : String)
  | bytes (bs : List UInt8)
  | words (ns : List UInt32)
  | texts (ss : List String)
  | option (n : Option UInt32)
  | unit
  | pair (b : UInt8) (s : String)

/-- What a node was made from: an object, or a fact. -/
inductive Item where
  | object (object : Object Value)
  | nothing
  | plain (value : Value)
  | count (n : Nat)
  | flag (b : Bool)
  | row (items : List Item)
  | parameters (ps : List (Parameter Value))
  | context (key : String) (path : List String) (component : Option String)
      (ps : List (Parameter Value))
  | failure (error : ResolveError)
  | refusal (message : String)

end

namespace Value

/-- The bytes of a text, closed by a byte that occurs in no text. -/
def textBytes (s : String) : List UInt8 := s.toUTF8.toList ++ [0xff]

/-- The bytes of a sequence: its length and then its members. -/
def sequenceBytes {α : Type} (memberBytes : α → List UInt8) (members : List α) : List UInt8 :=
  Digest.littleEndian 8 members.length ++ members.flatMap memberBytes

/-- The bytes a value writes for itself. Nodes are not passed as parameters and write none. -/
def hashBytes : Value → List UInt8
  | node _ _ => []
  | word format n => Digest.littleEndian format.bytes (n % (1 <<< (8 * format.bytes) : Nat)).toNat
  | truth b => [if b then 1 else 0]
  | char c => Digest.littleEndian 4 c.toNat
  | text s => textBytes s
  | literal s => textBytes s
  | bytes bs => sequenceBytes (fun b => [b]) bs
  | words ns => sequenceBytes (fun n => Digest.littleEndian 4 n.toNat) ns
  | texts ss => sequenceBytes textBytes ss
  | option none => Digest.littleEndian 8 0
  | option (some n) => Digest.littleEndian 8 1 ++ Digest.littleEndian 4 n.toNat
  | unit => []
  | pair b s => b :: textBytes s

/-- Values are hashed as the bytes that stand for them. -/
instance : Hashed Value := ⟨hashBytes⟩

end Value

/-- What a decorator makes of an object: a node around it with a longer label, the next number, a
longer text, or the same value again. -/
def decorated (suffix : String) (object : Object Value) : Value :=
  match object.value with
  | .node tag _ => .node (tag ++ suffix) [.object object]
  | .word format n => .word format (format.wrap (n + 1))
  | .text s => .text (s ++ suffix)
  | value => value

/-- What scripts keep besides the world: a log, how often each provider ran, and which component
goes by which name. -/
structure Journal where
  log : List String
  runs : Nat → Nat
  names : List (String × ComponentId)

namespace Journal

/-- The journal before anything happened. -/
def empty : Journal := ⟨[], fun _ => 0, []⟩

/-- Writes a line to the log. -/
def write (j : Journal) (line : String) : Journal := { j with log := j.log ++ [line] }

/-- Counts a run of a provider. -/
def countRun (j : Journal) (provider : Nat) : Journal :=
  { j with runs := fun other => if other = provider then j.runs other + 1 else j.runs other }

/-- The component that goes by a name. -/
def component? (j : Journal) (name : String) : Option ComponentId :=
  (j.names.find? fun entry => entry.1 = name).map Prod.snd

/-- The name that a component goes by. -/
def nameOf? (j : Journal) (c : ComponentId) : Option String :=
  (j.names.find? fun entry => entry.2 = c).map Prod.fst

end Journal

end Injection.Script

/-!
# Types

A type is known to the container by an identity alone. Its name serves display: keys, errors and
traces show the last segment of the name, so a type may be renamed without becoming another type.
-/

namespace Injection

/-- Identity of a type. -/
structure TypeId where
  code : UInt64
deriving DecidableEq, Inhabited

/-- A type as it is registered or requested: its identity and the name it is displayed under. -/
structure TypeInfo where
  id : TypeId
  name : String
deriving DecidableEq, Inhabited

/-- What follows the last `::` of a list of characters, if there is one. -/
def lastSegment? : List Char → Option (List Char)
  | [] => none
  | c :: rest =>
    match lastSegment? rest with
    | some segment => some segment
    | none => if c = ':' ∧ rest.head? = some ':' then some rest.tail else none

namespace TypeInfo

/-- The last segment of the name, or the whole name if it has only one. -/
def shortName (t : TypeInfo) : String :=
  match lastSegment? t.name.toList with
  | some segment => String.ofList segment
  | none => t.name

/-- Types are the same when their identities are, whatever their names. -/
def same (t u : TypeInfo) : Bool := t.id = u.id

end TypeInfo

end Injection

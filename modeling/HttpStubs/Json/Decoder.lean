import HttpStubs.Json.Value

/-!
# Decoding JSON values

Decoders for plain values, lists and records. A record is an object with its fields as members, or
an array with its fields in order. Members of other names are skipped without regard to their
meaning, and no field may be given twice.
-/

namespace HttpStubs.Json

/-- Reads a value that may nest as many levels deep as the first argument says. -/
abbrev Decoder (α : Type) := Nat → Json → Option α

namespace Decoder

variable {α : Type}

/-- A string. -/
def string : Decoder String
  | _, .string s => some s
  | _, _ => none

/-- A boolean. -/
def bool : Decoder Bool
  | _, .bool b => some b
  | _, _ => none

/-- An integer from 0 to 65535, written without sign, point and exponent. -/
def uint16 : Decoder UInt16
  | _, .number n => do
    let value ← n.toNat?
    if value < 65536 then some (UInt16.ofNat value) else none
  | _, _ => none

/-- The value, or `null` for none. -/
def nullable (decoder : Decoder α) : Decoder (Option α)
  | _, .null => some none
  | room, j => (decoder room j).map some

/-- An array of values. -/
def list (item : Decoder α) : Decoder (List α)
  | room + 1, .array items => items.mapM (item room)
  | _, _ => none

end Decoder

/-- The members given for the fields of a record. -/
abbrev Members := List (String × Json)

/-- The members whose names are fields; none if a field is given twice. -/
def knownMembers? (fields : List String) (members : Members) : Option Members :=
  let known := members.filter fun m => fields.contains m.1
  if (known.map (·.1)).Nodup then some known else none

/-- The members of a record written as an object or an array. -/
def recordMembers? (fields : List String) : Json → Option Members
  | .object members => knownMembers? fields members
  | .array items => if items.length ≤ fields.length then some (fields.zip items) else none
  | _ => none

/-- The members of a record written as an object, whose other members must fit as well. -/
def strictMembers? (fields : List String) (room : Nat) : Json → Option Members
  | .object members =>
    if members.all fun m => fields.contains m.1 || m.2.fits room then knownMembers? fields members
    else none
  | _ => none

namespace Members

variable {α : Type}

/-- A field that must be given. -/
def required (members : Members) (room : Nat) (name : String) (decoder : Decoder α) : Option α :=
  (members.lookup name).bind (decoder room)

/-- A field with a default. -/
def withDefault (members : Members) (room : Nat) (name : String) (default : α)
    (decoder : Decoder α) : Option α :=
  match members.lookup name with
  | some j => decoder room j
  | none => some default

/-- A field that may be left out or be `null`. -/
def optional (members : Members) (room : Nat) (name : String) (decoder : Decoder α) :
    Option (Option α) :=
  members.withDefault room name none decoder.nullable

end Members

end HttpStubs.Json

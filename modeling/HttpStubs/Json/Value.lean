import HttpStubs.Json.Number

/-!
# JSON values

A value as its text has it: numbers by their literals, members in order and with repetitions. A
literal can have the form of a value and still have no meaning; `fits` holds of the values that have
one throughout and do not nest too deep.
-/

namespace HttpStubs

/-- A JSON value. -/
inductive Json where
  | null
  | bool (value : Bool)
  | number (value : Json.Number)
  | string (value : String)
  | array (items : List Json)
  | object (members : List (String × Json))
  /-- A literal without a meaning: a string with an unpaired surrogate, an object with such a member
  name, or a number too large for a double. -/
  | meaningless
  deriving Repr

namespace Json

mutual

/-- Whether a value has a meaning throughout and nests at most `room` levels deep. -/
def fits (room : Nat) : Json → Bool
  | .null | .bool _ | .number _ | .string _ => true
  | .array items => 0 < room && itemsFit (room - 1) items
  | .object members => 0 < room && membersFit (room - 1) members
  | .meaningless => false

/-- Whether each item fits. -/
def itemsFit (room : Nat) : List Json → Bool
  | [] => true
  | item :: items => fits room item && itemsFit room items

/-- Whether the value of each member fits. -/
def membersFit (room : Nat) : List (String × Json) → Bool
  | [] => true
  | (_, value) :: members => fits room value && membersFit room members

end

end Json

end HttpStubs

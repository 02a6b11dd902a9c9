/-!
# Value types

The types that a field of a service can have, with the name of each kind in documents and messages.
-/

namespace HttpStubs.Service

/-- The type of a field. -/
inductive ValueType where
  | string
  | bytes
  | boolean
  | int32
  | int64
  | double
  | decimal
  | object
  | error
  | dto (name : String)
  | enum (name : String)
  | result (value : ValueType)
  | array (value : ValueType)
  | map (value : ValueType)
  | nullable (value : ValueType)
  deriving DecidableEq, Repr

/-- The name of a type's outermost kind. -/
def ValueType.kind : ValueType → String
  | .string => "string"
  | .bytes => "bytes"
  | .boolean => "boolean"
  | .int32 => "int32"
  | .int64 => "int64"
  | .double => "double"
  | .decimal => "decimal"
  | .object => "object"
  | .error => "error"
  | .dto _ => "dto"
  | .enum _ => "enum"
  | .result _ => "result"
  | .array _ => "array"
  | .map _ => "map"
  | .nullable _ => "nullable"

/-- Whether a type is the boolean type itself. -/
def ValueType.isBoolean : ValueType → Bool
  | .boolean => true
  | _ => false

end HttpStubs.Service

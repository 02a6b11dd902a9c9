import HttpStubs.Code.Dialect
import HttpStubs.Service.ValueType

/-!
# Scalars

The kinds of value that can be carried as text in a path, a query string or a header, and the
expressions that turn such a value into text and back.
-/

namespace HttpStubs.Api

open Code (Dialect)

/-- A kind of value that can be carried as text. -/
inductive Scalar where
  | string
  | bytes
  | boolean
  | int32
  | int64
  | double
  | decimal
  | enum (name : String)
  deriving DecidableEq, Repr

namespace Scalar

/-- The scalar kind of a value type, if it has one. -/
def ofValueType? : Service.ValueType → Option Scalar
  | .string => some .string
  | .bytes => some .bytes
  | .boolean => some .boolean
  | .int32 => some .int32
  | .int64 => some .int64
  | .double => some .double
  | .decimal => some .decimal
  | .enum name => some (.enum name)
  | .object | .error | .dto _ | .result _ | .array _ | .map _ | .nullable _ => none

/-- The message for a type that cannot be carried as text. -/
def refusal (type : Service.ValueType) : String :=
  type.kind ++ " values cannot be carried in a URI or header slot"

/-- The expression that makes a URI component of the expression `value`. A double may need encoding
because of its exponent. -/
def toUri (k : Scalar) (value : String) : String :=
  match k with
  | .string | .bytes | .enum _ => "encodeURIComponent(" ++ value ++ ")"
  | .boolean | .int32 | .int64 | .decimal => value ++ ".toString()"
  | .double => "encodeURIComponent(" ++ value ++ ".toString())"

/-- The expression that reads a value from the expression `text`. -/
def ofText (k : Scalar) (dialect : Dialect) (text : String) : String :=
  match k with
  | .string | .bytes => text
  | .enum name => text ++ dialect.onlyTyped (" as " ++ name)
  | .boolean => "parseBoolean(" ++ text ++ ")"
  | .int32 | .int64 => "parseInt(" ++ text ++ ", 10)"
  | .double | .decimal => "parseFloat(" ++ text ++ ")"

/-- The expression that makes header text of the expression `value`. -/
def toHeader (k : Scalar) (value : String) : String :=
  match k with
  | .string | .bytes | .enum _ => value
  | .boolean | .int32 | .int64 | .double | .decimal => value ++ ".toString()"

/-- Whether reading a value calls the boolean reader. -/
def isBoolean : Scalar → Bool
  | .boolean => true
  | _ => false

/-- The enum that the values belong to. -/
def enumName? : Scalar → Option String
  | .enum name => some name
  | _ => none

end Scalar

end HttpStubs.Api

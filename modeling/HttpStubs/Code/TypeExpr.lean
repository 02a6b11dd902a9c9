import HttpStubs.Service.ValueType

/-!
# Type expressions

The types that emitted declarations give to fields: how a value type becomes a type expression, how
it is written, and which declared names it refers to.
-/

namespace HttpStubs.Code

/-- The types that the emitted language has built in. -/
inductive Primitive where
  | string
  | number
  | boolean
  | null
  | unknown
  deriving DecidableEq, Repr

/-- How a built-in type is written. -/
def Primitive.text : Primitive → String
  | .string => "string"
  | .number => "number"
  | .boolean => "boolean"
  | .null => "null"
  | .unknown => "unknown"

/-- A type expression of the emitted language. -/
inductive TypeExpr where
  | primitive (p : Primitive)
  | array (element : TypeExpr)
  | union (members : List TypeExpr)
  | record (key value : TypeExpr)
  | generic (name : String) (arguments : List TypeExpr)
  | ref (name : String)
  deriving Repr

/-- The type that wraps the outcome of a method. -/
def serviceResult : String := "IServiceResult"

/-- The type of a service error. -/
def serviceError : String := "IServiceError"

/-- The interface declared for a record type. -/
def dtoInterface (name : String) : String := "I" ++ name

namespace TypeExpr

/-- Whether an expression is `null` itself. -/
def isNull : TypeExpr → Bool
  | .primitive .null => true
  | _ => false

/-- The union of a type with `null`, which is added at most once. -/
def orNull : TypeExpr → TypeExpr
  | .union members =>
    .union (if members.any isNull then members else members ++ [.primitive .null])
  | e => .union [e, .primitive .null]

/-- An object with string keys. -/
def stringRecord (value : TypeExpr) : TypeExpr :=
  .record (.primitive .string) value

/-- The type expression of a value type. -/
def ofValueType : Service.ValueType → TypeExpr
  | .string | .bytes => .primitive .string
  | .boolean => .primitive .boolean
  | .int32 | .int64 | .double | .decimal => .primitive .number
  | .object => stringRecord (.primitive .unknown)
  | .error => .ref serviceError
  | .dto name => .ref (dtoInterface name)
  | .enum name => .ref name
  | .result value => .generic serviceResult [ofValueType value]
  | .array value => .array (ofValueType value)
  | .map value => stringRecord (ofValueType value)
  | .nullable value => (ofValueType value).orNull

/-- The element type of an array as it stands before the brackets: a union is put in
parentheses. -/
def parenthesize (element : TypeExpr) (text : String) : String :=
  match element with
  | .union _ => "(" ++ text ++ ")"
  | _ => text

mutual

/-- How a type expression is written. -/
def text : TypeExpr → String
  | .primitive p => p.text
  | .array element => element.parenthesize element.text ++ "[]"
  | .union members => " | ".intercalate (texts members)
  | .record key value => "Record<" ++ key.text ++ ", " ++ value.text ++ ">"
  | .generic name arguments => name ++ "<" ++ ", ".intercalate (texts arguments) ++ ">"
  | .ref name => name

/-- How each of some type expressions is written. -/
def texts : List TypeExpr → List String
  | [] => []
  | e :: es => e.text :: texts es

end

mutual

/-- The declared names that a type expression refers to. -/
def references : TypeExpr → List String
  | .primitive _ => []
  | .array element => element.references
  | .union members => referencesAll members
  | .record key value => key.references ++ value.references
  | .generic name arguments => name :: referencesAll arguments
  | .ref name => [name]

/-- The declared names that some type expressions refer to. -/
def referencesAll : List TypeExpr → List String
  | [] => []
  | e :: es => e.references ++ referencesAll es

end

end TypeExpr

end HttpStubs.Code

import HttpStubs.Api.Endpoint
import HttpStubs.Code.Import
import HttpStubs.Code.Writer

/-!
# Sections

A section is the code of one concern (types, client or server) together with what an artifact must
provide around it: imports, the names of types declared elsewhere, and the boolean reader.
-/

namespace HttpStubs.Stub

open Api (Slot)
open Code

/-- What an exported declaration declares. -/
inductive DeclarationKind where
  | interface
  | enum
  deriving DecidableEq, Repr

/-- An exported declaration. -/
structure Declaration where
  name : String
  kind : DeclarationKind
  deriving DecidableEq, Repr

/-- A piece of code with what it needs and what it declares. -/
structure Section where
  imports : List Import := []
  /-- The declared types that the code names. -/
  localTypes : List String := []
  /-- Whether the code calls the boolean reader. -/
  parsesBoolean : Bool := false
  exports : List Declaration := []
  code : List Step := []

/-- The types that reading some slots names: the enums of their values. -/
def enumNames (slots : List Slot) : List String :=
  slots.filterMap (·.kind.enumName?)

/-- Whether reading some slots calls the boolean reader. -/
def readsBoolean (slots : List Slot) : Bool :=
  slots.any (·.kind.isBoolean)

/-- The source of the boolean reader. -/
def booleanReader (dialect : Dialect) : String :=
  "\n".intercalate [
    "function parseBoolean(value" ++ dialect.onlyTyped ": string | undefined" ++ ")" ++
      dialect.onlyTyped ": boolean | undefined" ++ " \x7b",
    "\tif (typeof value === 'string') \x7b",
    "\t\tconst lowerValue = value.toLowerCase();",
    "\t\tif (lowerValue === 'true') \x7b",
    "\t\t\treturn true;",
    "\t\t\x7d",
    "\t\tif (lowerValue === 'false') \x7b",
    "\t\t\treturn false;",
    "\t\t\x7d",
    "\t\x7d",
    "\treturn undefined;",
    "\x7d"]

end HttpStubs.Stub

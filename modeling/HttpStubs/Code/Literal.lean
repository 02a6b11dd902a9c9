import HttpStubs.Code.Name

/-!
# Literals and property access

Single-quoted string literals, the fixed parts of template literals, and the two ways to write a
property: bare where the name allows it, otherwise quoted.
-/

namespace HttpStubs.Code

/-- How a character stands in a single-quoted literal. -/
def escapeChar : Char → List Char
  | '\\' => ['\\', '\\']
  | '\x27' => ['\\', '\x27']
  | '\n' => ['\\', 'n']
  | '\r' => ['\\', 'r']
  | c => [c]

/-- The text as it stands between single quotes. -/
def escape (s : String) : String :=
  String.ofList (s.toList.flatMap escapeChar)

/-- The single-quoted literal of a text. -/
def literal (s : String) : String :=
  "'" ++ escape s ++ "'"

/-- The characters as they stand in a template literal: a backslash, a backtick and the `$` of an
opening `${` get a backslash. -/
def escapeTemplateChars : List Char → List Char
  | [] => []
  | '\\' :: cs => '\\' :: '\\' :: escapeTemplateChars cs
  | '\x60' :: cs => '\\' :: '\x60' :: escapeTemplateChars cs
  | '$' :: '\x7b' :: cs => '\\' :: '$' :: '\x7b' :: escapeTemplateChars cs
  | c :: cs => c :: escapeTemplateChars cs

/-- The text as it stands in the fixed part of a template literal. -/
def escapeTemplate (s : String) : String :=
  String.ofList (escapeTemplateChars s.toList)

/-- A property key in an object literal or a declaration. -/
def propertyKey (name : String) : String :=
  if isBareName name then name else literal name

/-- The expression for the property `name` of `object`. -/
def propertyAccess (object name : String) : String :=
  if isBareName name then object ++ "." ++ name else object ++ "[" ++ literal name ++ "]"

/-- A list in braces: the names of an import, or the entries of an object. -/
def braced (entries : List String) : String :=
  "\x7b " ++ ", ".intercalate entries ++ " \x7d"

end HttpStubs.Code

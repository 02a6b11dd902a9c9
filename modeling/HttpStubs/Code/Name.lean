import HttpStubs.Text.LetterCase

/-!
# Names in emitted code

Which texts can stand as a bare property name, and the capitalised name that a field gives to a
variable.
-/

namespace HttpStubs.Code

/-- ASCII letters, ASCII digits, `_` and `$`. -/
def isNameChar (c : Char) : Bool :=
  c.isAlphanum || c == '_' || c == '$'

/-- As `isNameChar`, without the digits. -/
def isNameStart (c : Char) : Bool :=
  c.isAlpha || c == '_' || c == '$'

/-- Whether a text matches `[A-Za-z_$][A-Za-z0-9_$]*`, so that it needs no quotes as a property
name. -/
def isBareName (s : String) : Bool :=
  match s.toList with
  | [] => false
  | c :: cs => isNameStart c && cs.all isNameChar

/-- The parts of `cs` between characters that no name has, the current part reversed in `part`. -/
def nameParts (part : List Char) : List Char → List (List Char)
  | [] => [part.reverse]
  | c :: cs => if isNameChar c then nameParts (c :: part) cs else part.reverse :: nameParts [] cs

/-- The name made of the capitalised parts of a text, as `XId` from `x-id`. -/
def pascalName (s : String) : String :=
  String.ofList ((nameParts [] s.toList).flatMap (Text.mapFirst Text.toUpper))

end HttpStubs.Code

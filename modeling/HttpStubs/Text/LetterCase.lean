import HttpStubs.Text.LetterCase.Table

/-!
# Letter case of the first character

`capitalize` and `uncapitalize` change the first character of a text by its full Unicode mapping,
so one character may become several, and leave the rest as it is.
-/

namespace HttpStubs.Text

/-- The mapping given by a table of expansions and a table of runs. -/
def mapCase (expansions : List (Nat × List Nat)) (runs : List Run) (c : Char) : List Char :=
  match expansions.lookup c.toNat with
  | some ns => ns.map Char.ofNat
  | none =>
    match runs.findSome? (·.map? c.toNat) with
    | some n => [Char.ofNat n]
    | none => [c]

/-- The full upper case mapping of a character. -/
def toUpper : Char → List Char :=
  mapCase upperExpansions upperRuns

/-- The full lower case mapping of a character. -/
def toLower : Char → List Char :=
  mapCase lowerExpansions lowerRuns

/-- Replaces the first character by what `f` makes of it. -/
def mapFirst (f : Char → List Char) : List Char → List Char
  | [] => []
  | c :: cs => f c ++ cs

/-- The text with its first character in upper case. -/
def capitalize (s : String) : String :=
  String.ofList (mapFirst toUpper s.toList)

/-- The text with its first character in lower case. -/
def uncapitalize (s : String) : String :=
  String.ofList (mapFirst toLower s.toList)

end HttpStubs.Text

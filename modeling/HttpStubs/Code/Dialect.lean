/-!
# Dialects

The two dialects in which code is emitted: with types and without.
-/

namespace HttpStubs.Code

/-- The language of the emitted code. -/
inductive Dialect where
  | typeScript
  | javaScript
  deriving DecidableEq, Repr

namespace Dialect

/-- Whether the dialect has type annotations. -/
def isTyped : Dialect → Bool
  | .typeScript => true
  | .javaScript => false

/-- The file extension of the dialect. -/
def extension : Dialect → String
  | .typeScript => "ts"
  | .javaScript => "js"

/-- A text that only the typed dialect has. -/
def onlyTyped (d : Dialect) (text : String) : String :=
  if d.isTyped then text else ""

end Dialect

end HttpStubs.Code

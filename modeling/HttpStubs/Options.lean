import HttpStubs.Code.Dialect
import HttpStubs.Text.Lines

/-!
# Generator options

What the user chooses about the artifacts.
-/

namespace HttpStubs

/-- The options of the generator. -/
structure Options where
  /-- The stem of the artifact names; the uncapitalised service name by default. -/
  moduleName : Option String := none
  dialect : Code.Dialect := .typeScript
  /-- Whether a server is emitted too. -/
  server : Bool := false
  newline : Text.Newline := .lf
  /-- Whether artifacts switch the linter off. -/
  disableEslint : Bool := true
  /-- Whether everything goes into one artifact. -/
  singleFile : Bool := false
  /-- The package that the emitted code imports its runtime from. -/
  runtimePackage : String := "facility-core"
  /-- The name that artifacts give as their generator. -/
  generatorName : String := "httpgen"
  deriving DecidableEq, Repr

end HttpStubs

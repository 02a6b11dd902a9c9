import HttpStubs.Options
import HttpStubs.Toml.Reader

/-!
# Options files

Options are read from a TOML text with a key for each. Keys that are not options are faults.
-/

namespace HttpStubs.Options

open Toml (Node Table Value)

/-- The text that a key stands for. -/
def string? : Node → Option String
  | .value (.string text) => some text
  | _ => none

/-- The boolean that a key stands for. -/
def boolean? : Node → Option Bool
  | .value (.boolean value) => some value
  | _ => none

/-- Whether a key stands for an empty table or an empty array. -/
def isEmpty : Node → Bool
  | .value (.inline []) | .value .emptyArray | .table _ [] => true
  | _ => false

/-- The name that a key chooses: a text, or a table whose only key is the name and stands for
nothing else. -/
def choice? : Node → Option String
  | .value (.string name) => some name
  | .value (.inline [(name, value)]) => if isEmpty (.value value) then some name else none
  | .table _ [(name, node)] => if isEmpty node then some name else none
  | _ => none

/-- The dialect of a name. -/
def dialect? : String → Option Code.Dialect
  | "typescript" => some .typeScript
  | "javascript" => some .javaScript
  | _ => none

/-- The line end of a name. -/
def newline? : String → Option Text.Newline
  | "lf" => some .lf
  | "crlf" => some .crlf
  | _ => none

/-- Sets the option of a key. -/
def set? (o : Options) (key : String) (node : Node) : Option Options :=
  match key with
  | "module-name" => (string? node).map fun name => { o with moduleName := some name }
  | "dialect" => ((choice? node).bind dialect?).map fun dialect => { o with dialect }
  | "server" => (boolean? node).map fun server => { o with server }
  | "newline" => ((choice? node).bind newline?).map fun newline => { o with newline }
  | "disable-eslint" => (boolean? node).map fun disableEslint => { o with disableEslint }
  | "single-file" => (boolean? node).map fun singleFile => { o with singleFile }
  | "runtime-package" => (string? node).map fun runtimePackage => { o with runtimePackage }
  | "generator-name" => (string? node).map fun generatorName => { o with generatorName }
  | _ => none

/-- The options of a table. -/
def ofTable? (table : Table) : Option Options :=
  table.foldlM (fun o (key, node) => o.set? key node) {}

/-- The options of a TOML text. -/
def ofToml? (text : String) : Option Options :=
  (Toml.ofText? text).bind ofTable?

end HttpStubs.Options

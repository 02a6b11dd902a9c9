/-!
# Command-line arguments

The arguments of a run and their reading, from left to right. The value of an option is either
attached to it or the next argument. An option whose value is not there yet, and the input, are only
settled by what comes next: the next option, flag or input, or the end. Unknown names and values
attached to flags are reported at once.
-/

namespace HttpStubs.Command

/-- The arguments of a run. -/
structure Arguments where
  input : String
  output : String
  config : Option String := none
  moduleName : Option String := none
  javascript : Bool := false
  server : Bool := false
  singleFile : Bool := false
  crlf : Bool := false
  check : Bool := false
  deriving DecidableEq, Repr

/-- What is answered in place of a run. -/
inductive Usage where
  | missingArgument
  | invalidValue
  | unknownArgument
  | conflict
  | tooManyValues
  | help
  | version
  deriving DecidableEq, Repr

/-- Whether the answer was asked for. -/
def Usage.isRequest : Usage → Bool
  | .help | .version => true
  | _ => false

/-- An argument that has a value. -/
inductive Setting where
  | input
  | output
  | config
  | moduleName
  deriving DecidableEq, Repr

/-- Whether the empty text is a value. -/
def Setting.allowsEmpty : Setting → Bool
  | .moduleName => true
  | .input | .output | .config => false

/-- An argument without a value. -/
inductive Flag where
  | javascript
  | server
  | singleFile
  | crlf
  | check
  deriving DecidableEq, Repr

/-- What an option name stands for. -/
inductive Name where
  | setting (setting : Setting)
  | flag (flag : Flag)
  | request (usage : Usage)

/-- The options by their long names. -/
def Name.ofLong? : String → Option Name
  | "output" => some (.setting .output)
  | "config" => some (.setting .config)
  | "module-name" => some (.setting .moduleName)
  | "javascript" => some (.flag .javascript)
  | "server" => some (.flag .server)
  | "single-file" => some (.flag .singleFile)
  | "crlf" => some (.flag .crlf)
  | "check" => some (.flag .check)
  | "help" => some (.request .help)
  | "version" => some (.request .version)
  | _ => none

/-- What has been read of the arguments. -/
structure Given where
  settings : List (Setting × String) := []
  flags : List Flag := []
  /-- A setting that is not settled yet, with its value if it has come. -/
  pending : Option (Setting × Option String) := none
  /-- Whether an input has come. -/
  hasInput : Bool := false
  /-- Whether options have ended. -/
  escaped : Bool := false
  deriving DecidableEq, Repr

namespace Given

/-- Gives a setting its value. -/
def assign (g : Given) (setting : Setting) (value : String) : Except Usage Given :=
  if (g.settings.lookup setting).isSome then .error .conflict
  else if value.isEmpty && !setting.allowsEmpty then .error .invalidValue
  else .ok { g with settings := g.settings ++ [(setting, value)] }

/-- Settles the pending setting. -/
def settle (g : Given) : Except Usage Given :=
  match g.pending with
  | none => .ok g
  | some (_, none) => .error .invalidValue
  | some (setting, some value) => { g with pending := none }.assign setting value

/-- Reads the name of a setting, with the value attached to it. -/
def option (g : Given) (setting : Setting) (value : Option String) : Except Usage Given := do
  let g ← g.settle
  match value with
  | some value => g.assign setting value
  | none => return { g with pending := some (setting, none) }

/-- Reads a flag. -/
def flag (g : Given) (flag : Flag) : Except Usage Given := do
  let g ← g.settle
  if g.flags.contains flag then .error .conflict
  else return { g with flags := g.flags ++ [flag] }

/-- Answers a request. -/
def request (g : Given) (usage : Usage) : Except Usage Given := do
  let _ ← g.settle
  .error usage

/-- Cuts a text at its first equals sign. -/
def cutAtEquals (cs : List Char) : String × Option String :=
  match cs.dropWhile (· != '=') with
  | [] => (String.ofList cs, none)
  | _ :: value => (String.ofList (cs.takeWhile (· != '=')), some (String.ofList value))

/-- Reads an option by its long name, without the hyphens. -/
def long (g : Given) (cs : List Char) : Except Usage Given :=
  let (name, value) := cutAtEquals cs
  match Name.ofLong? name, value with
  | none, _ => .error .unknownArgument
  | some (.setting setting), value => g.option setting value
  | some _, some _ => .error .tooManyValues
  | some (.flag flag), none => g.flag flag
  | some (.request usage), none => g.request usage

/-- Reads an option by its letter, without the hyphen; what follows the letter is its value. -/
def short (g : Given) : List Char → Except Usage Given
  | ['o'] => g.option .output none
  | 'o' :: '=' :: value => g.option .output (some (String.ofList value))
  | 'o' :: value => g.option .output (some (String.ofList value))
  | 'h' :: _ => g.request .help
  | 'V' :: _ => g.request .version
  | _ => .error .unknownArgument

/-- Reads the input, of which there is one. -/
def positional (g : Given) (text : String) : Except Usage Given :=
  if g.hasInput then .error .unknownArgument
  else do
    let g ← g.settle
    return { g with pending := some (.input, some text), hasInput := true }

/-- Reads an argument that is no option: the value that is waited for, or the input. -/
def plain (g : Given) (text : String) : Except Usage Given :=
  match g.pending with
  | some (setting, none) => .ok { g with pending := some (setting, some text) }
  | _ => g.positional text

/-- Reads one argument. -/
def read (g : Given) (text : String) : Except Usage Given :=
  if g.escaped then g.positional text
  else
    match text.toList with
    | ['-', '-'] => .ok { g with escaped := true }
    | '-' :: '-' :: cs => g.long cs
    | '-' :: c :: cs => g.short (c :: cs)
    | _ => g.plain text

/-- The arguments of a run, if none is missing. -/
def finish (g : Given) : Except Usage Arguments := do
  let g ← g.settle
  match g.settings.lookup .input, g.settings.lookup .output with
  | some input, some output =>
    return {
      input, output
      config := g.settings.lookup .config
      moduleName := g.settings.lookup .moduleName
      javascript := g.flags.contains .javascript
      server := g.flags.contains .server
      singleFile := g.flags.contains .singleFile
      crlf := g.flags.contains .crlf
      check := g.flags.contains .check }
  | _, _ => .error .missingArgument

end Given

/-- Reads the arguments of a run. -/
def Arguments.parse (texts : List String) : Except Usage Arguments := do
  (← texts.foldlM Given.read {}).finish

end HttpStubs.Command

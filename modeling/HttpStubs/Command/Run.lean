import HttpStubs.Command.Arguments
import HttpStubs.Command.Disk
import HttpStubs.Diff.Unified
import HttpStubs.Options.Toml
import HttpStubs.Service.Decoding
import HttpStubs.Stub.Artifact

/-!
# Runs

A run reads the document and the options, generates the artifacts, and brings the files up to date
one by one; with `check` it prints what would change instead, by the line diff that it is given. It
stops at the first failure and leaves what it has done.
-/

namespace HttpStubs.Command

open Stub (Artifact)

/-- Why a run fails. -/
inductive Failure where
  | read (path : String) (fault : FileFault)
  | document (path : String)
  | options (path : String)
  | invalid (path : String) (fault : Service.BindingFault)
  | generate (service : String) (fault : Api.Fault)
  | create (path : String) (fault : FileFault)
  | write (path : String) (fault : FileFault)
  deriving DecidableEq, Repr

/-- The wording of a failure. -/
def Failure.message : Failure → String
  | .read path fault => "Failed to read " ++ path ++ ": " ++ fault.message
  | .document path => "Failed to parse " ++ path ++ ": not a service document"
  | .options path => "Failed to parse " ++ path ++ ": not an options file"
  | .invalid path fault => "Invalid " ++ path ++ ": " ++ fault.message
  | .generate service fault => "Failed to generate " ++ service ++ ": " ++ fault.message
  | .create path fault => "Failed to create " ++ path ++ ": " ++ fault.message
  | .write path fault => "Failed to write " ++ path ++ ": " ++ fault.message

/-- What a run has done. -/
structure Report where
  stdout : String := ""
  /-- The number of artifacts found out of date. -/
  stale : Nat := 0
  /-- The paths written, with their contents. -/
  written : List (String × String) := []
  failure : Option Failure := none
  deriving DecidableEq, Repr

/-- The exit code of a run. -/
def Report.exitCode (r : Report) : Nat :=
  if r.failure.isSome || r.stale != 0 then 1 else 0

/-- What a run prints about its end. -/
def Report.stderr (r : Report) : String :=
  match r.failure with
  | some failure => failure.message ++ "\n"
  | none => if r.stale = 0 then "" else r.stale.repr ++ " generated file(s) out of date\n"

/-- The options with the arguments that override them. -/
def Arguments.override (a : Arguments) (o : Options) : Options where
  moduleName := a.moduleName.or o.moduleName
  dialect := if a.javascript then .javaScript else o.dialect
  server := a.server || o.server
  newline := if a.crlf then .crlf else o.newline
  disableEslint := o.disableEslint
  singleFile := a.singleFile || o.singleFile
  runtimePackage := o.runtimePackage
  generatorName := o.generatorName

/-- The document of a text, if it passes the check. -/
def loadDocument (path text : String) : Except Failure Service.Document :=
  match Service.Document.ofText? text with
  | none => .error (.document path)
  | some document =>
    match document.check with
    | .error fault => .error (.invalid path fault)
    | .ok () => .ok document

/-- The options of a text. -/
def loadOptions (path text : String) : Except Failure Options :=
  match Options.ofToml? text with
  | none => .error (.options path)
  | some options => .ok options

/-- The artifacts of a document. -/
def generate (document : Service.Document) (options : Options) : Except Failure (List Artifact) :=
  (Stub.generate document options).mapError (.generate document.service.name)

/-- The text of a file that may be missing. -/
def existing : Except FileFault String → Except FileFault (Option String)
  | .ok text => .ok (some text)
  | .error .notFound => .ok none
  | .error fault => .error fault

/-- The diff of an artifact against the text of its file. -/
def staleDiff (differ : Diff.LineDiff) (artifact : Artifact) (current : Option String) : String :=
  Diff.unified differ (artifact.name ++ " (current)") (artifact.name ++ " (generated)")
    (current.getD "") artifact.content

section

variable {m : Type → Type} [Monad m] (files : FileAccess m) (differ : Diff.LineDiff)

/-- Reads a file for a run. -/
def readFile (path : String) : ExceptT Failure m String := do
  match ← files.read path with
  | .ok text => return text
  | .error fault => throw (.read path fault)

/-- The artifacts that a run is about. -/
def prepare (a : Arguments) : ExceptT Failure m (List Artifact) := do
  let document ← liftExcept (loadDocument a.input (← readFile files a.input))
  let options ← match a.config with
    | none => pure {}
    | some path => do liftExcept (loadOptions path (← readFile files path))
  liftExcept (generate document (a.override options))
where
  /-- A result computed without files. -/
  liftExcept {α : Type} (r : Except Failure α) : ExceptT Failure m α :=
    ExceptT.mk (pure r)

/-- Writes a file and makes the directories above it. -/
def writeFile (path content : String) : m (Option Failure) := do
  let created ← match (Path.ofText path).parent? with
    | none => pure none
    | some parent => do
      match ← files.createDirectories parent.text with
      | .ok () => pure none
      | .error fault => pure (some (Failure.create parent.text fault))
  match created with
  | some failure => return some failure
  | none =>
    match ← files.write path content with
    | .ok () => return none
    | .error fault => return some (.write path fault)

/-- Brings one artifact up to date, or reports that it is not. -/
def update (a : Arguments) (r : Report) (artifact : Artifact) : m Report := do
  let path := Path.join a.output artifact.name
  match existing (← files.read path) with
  | .error fault => return { r with failure := some (.read path fault) }
  | .ok current =>
    if current = some artifact.content then return r
    else if a.check then
      return { r with
        stdout := r.stdout ++ staleDiff differ artifact current
        stale := r.stale + 1 }
    else
      match ← writeFile files path artifact.content with
      | some failure => return { r with failure := some failure }
      | none => return { r with written := r.written ++ [(path, artifact.content)] }

/-- Brings artifacts up to date in order, up to the first failure. -/
def updateAll (a : Arguments) (r : Report) : List Artifact → m Report
  | [] => pure r
  | artifact :: artifacts => do
    let r ← update files differ a r artifact
    if r.failure.isSome then return r else updateAll a r artifacts

/-- A run with some arguments. -/
def run (a : Arguments) : m Report := do
  match ← (prepare files a).run with
  | .error failure => return { failure := some failure }
  | .ok artifacts => updateAll files differ a {} artifacts

end

/-- A run on a disk: what it has done, and the disk after it. -/
def runOn (differ : Diff.LineDiff) (disk : Disk) (a : Arguments) : Report × Disk :=
  (run Disk.access differ a).run disk

end HttpStubs.Command

import HttpStubs.Command.Run

/-!
# The command line

Runs the generator on the files around it.
-/

namespace HttpStubs.Main

open Command

/-- The error number of the system, which some operations report with its sign changed. -/
def errorNumber (code : UInt32) : UInt32 :=
  if code < 0x80000000 then code else 0 - code

/-- The fault of a failed file operation. -/
def faultOf : IO.Error → FileFault
  | .noFileOrDirectory .. => .notFound
  | .alreadyExists .. => .exists
  | .inappropriateType _ code details =>
    if errorNumber code = 20 then .notDirectory
    else if errorNumber code = 21 then .isDirectory
    else .other details
  | error => .other (toString error)

/-- The outcome of a file operation. -/
def attempt {α : Type} (action : IO α) : IO (Except FileFault α) := do
  match ← action.toBaseIO with
  | .ok a => return .ok a
  | .error error => return .error (faultOf error)

/-- The text of a file. -/
def readText (path : String) : IO (Except FileFault String) := do
  match ← attempt (IO.FS.readBinFile path) with
  | .error fault => return .error fault
  | .ok bytes =>
    match String.fromUTF8? bytes with
    | some text => return .ok text
    | none => return .error .notText

/-- The file operations of the system. -/
def access : FileAccess IO where
  read := readText
  createDirectories path := attempt (IO.FS.createDirAll path)
  write path text := attempt (IO.FS.writeFile path text)

/-- How the program is called. -/
def usageText : String :=
  "\n".intercalate [
    "Usage: httpgen [OPTIONS] --output <DIR> <INPUT>",
    "",
    "Arguments:",
    "  <INPUT>  Service document (JSON) to generate from",
    "",
    "Options:",
    "  -o, --output <DIR>        Directory the artifacts are written to",
    "      --config <FILE>       Generator options (TOML)",
    "      --module-name <NAME>  Module name used to derive artifact names",
    "      --javascript          Emit JavaScript instead of TypeScript",
    "      --server              Also emit an Express server scaffold",
    "      --single-file         Merge every artifact into one file",
    "      --crlf                Terminate lines with CRLF",
    "      --check               Write nothing; fail if any artifact is out of date",
    "  -h, --help                Print help",
    "  -V, --version             Print version",
    ""]

/-- Answers in place of a run. -/
def answer (usage : Usage) : IO UInt32 := do
  match usage with
  | .help =>
    IO.print ("Generate HTTP clients and servers from service definitions\n\n" ++ usageText)
  | .version => IO.println "httpgen 0.1.0"
  | _ => IO.eprint usageText
  return if usage.isRequest then 0 else 2

end HttpStubs.Main

/-- Reads the arguments and runs the generator. -/
def main (texts : List String) : IO UInt32 := do
  match HttpStubs.Command.Arguments.parse texts with
  | .error usage => HttpStubs.Main.answer usage
  | .ok arguments =>
    let report ← HttpStubs.Command.run HttpStubs.Main.access HttpStubs.Diff.script arguments
    IO.print report.stdout
    IO.eprint report.stderr
    return report.exitCode.toUInt32

/-!
# Access to files

What a run needs of the files around it, and how that can fail.
-/

namespace HttpStubs.Command

/-- Why a file or directory cannot be used. -/
inductive FileFault where
  | notFound
  | exists
  | notDirectory
  | isDirectory
  | nameTooLong
  /-- The path has a null character. -/
  | nullInPath
  /-- The content is not UTF-8. -/
  | notText
  | other (reason : String)
  deriving DecidableEq, Repr

/-- The wording of a fault. -/
def FileFault.message : FileFault → String
  | .notFound => "No such file or directory (os error 2)"
  | .exists => "File exists (os error 17)"
  | .notDirectory => "Not a directory (os error 20)"
  | .isDirectory => "Is a directory (os error 21)"
  | .nameTooLong => "File name too long (os error 36)"
  | .nullInPath => "file name contained an unexpected NUL byte"
  | .notText => "stream did not contain valid UTF-8"
  | .other reason => reason

/-- The file operations that a run uses. -/
structure FileAccess (m : Type → Type) where
  /-- The text of the file at a path. -/
  read : String → m (Except FileFault String)
  /-- Makes a directory and its parents, unless they are there. -/
  createDirectories : String → m (Except FileFault Unit)
  /-- Makes a text the content of the file at a path. -/
  write : String → String → m (Except FileFault Unit)

end HttpStubs.Command

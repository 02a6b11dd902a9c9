/-!
# Paths

Paths as texts: a path is absolute or relative, and has segments between slashes. Empty segments and
`.` stand for nothing, except a `.` at the start of a relative path.
-/

namespace HttpStubs.Command

/-- A path by its segments. -/
structure Path where
  absolute : Bool
  segments : List String
  deriving DecidableEq, Repr

namespace Path

/-- The parts of a text between slashes, the current part reversed in `part`. -/
def splitFrom (part : List Char) : List Char → List String
  | [] => [String.ofList part.reverse]
  | '/' :: cs => String.ofList part.reverse :: splitFrom [] cs
  | c :: cs => splitFrom (c :: part) cs

/-- The path of a text. -/
def ofText (text : String) : Path :=
  match text.toList with
  | '/' :: cs => ⟨true, splitFrom [] cs⟩
  | cs => ⟨false, splitFrom [] cs⟩

/-- The text of a path. -/
def text (p : Path) : String :=
  (if p.absolute then "/" else "") ++ "/".intercalate p.segments

/-- Whether a segment stands for nothing. -/
def isIdle (segment : String) : Bool :=
  segment == "" || segment == "."

/-- The segments without the idle ones at the end; a `.` at the start of a relative path stays. -/
def trimEnd (absolute : Bool) (segments : List String) : List String :=
  match (segments.reverse.dropWhile isIdle).reverse with
  | [] => if !absolute && segments.head? == some "." then ["."] else []
  | segments => segments

/-- The path without its last segment; none if there is no segment to take away. -/
def parent? (p : Path) : Option Path :=
  match trimEnd p.absolute p.segments with
  | [] => none
  | segments => some { p with segments := trimEnd p.absolute segments.dropLast }

/-- The path of a name in a directory, as texts. An absolute name stands for itself. -/
def join (directory name : String) : String :=
  if name.toList.head? = some '/' then name
  else
    match directory.toList.getLast? with
    | none => name
    | some '/' => directory ++ name
    | some _ => directory ++ "/" ++ name

end Path

end HttpStubs.Command

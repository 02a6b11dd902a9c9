import HttpStubs.Code.Writer
import HttpStubs.Service.Definition
import HttpStubs.Text.Blank

/-!
# Doc comments

The comment written above a declaration: the lines of its summary, then a deprecation note if it is
obsolete. Nothing is written if there is nothing to say.
-/

namespace HttpStubs.Code

/-- The lines of a doc comment. -/
structure DocComment where
  lines : List String
  deriving DecidableEq, Repr

namespace DocComment

/-- The lines of a text, trimmed, without the empty ones. -/
def textLines (text : String) : List String :=
  ((Text.lines text).map Text.trim).filter (· != "")

/-- The note on an obsolete element. -/
def deprecation (message : Option String) : String :=
  match message.map Text.trim with
  | none => "@deprecated"
  | some "" => "@deprecated"
  | some text => "@deprecated " ++ text

/-- A comment of plain text. -/
def ofText (text : String) : DocComment :=
  ⟨textLines text⟩

/-- The comment of an element. -/
def ofDocs (docs : Service.Docs) : DocComment :=
  ⟨(docs.summary.map textLines).getD [] ++
    if docs.obsolete then [deprecation docs.obsoleteMessage] else []⟩

/-- Whether an element has no summary, or a blank one. -/
def lacksSummary (docs : Service.Docs) : Bool :=
  match docs.summary with
  | none => true
  | some summary => Text.trim summary == ""

/-- The comment of an element, with `fallback` in front if it has no summary. -/
def ofDocsOr (docs : Service.Docs) (fallback : String) : DocComment :=
  if lacksSummary docs then ⟨fallback :: (ofDocs docs).lines⟩ else ofDocs docs

/-- Puts a backslash into each end of a comment. -/
def escapeChars : List Char → List Char
  | [] => []
  | '*' :: '/' :: cs => '*' :: '\\' :: '/' :: escapeChars cs
  | c :: cs => c :: escapeChars cs

/-- The text as it can stand in a comment. -/
def escape (text : String) : String :=
  String.ofList (escapeChars text.toList)

/-- The steps that write a comment. -/
def steps : DocComment → List Step
  | ⟨[]⟩ => []
  | ⟨[line]⟩ => [.line ("/** " ++ escape line ++ " */")]
  | ⟨lines⟩ => .line "/**" :: lines.map (fun line => .line (" * " ++ escape line)) ++ [.line " */"]

end DocComment

end HttpStubs.Code

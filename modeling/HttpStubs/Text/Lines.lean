/-!
# Lines of a text

Two ways to cut a text into lines. `lines` takes a line feed, with or without a carriage return
before it, as the end of a line and leaves it out. `terminatedLines` takes a lone carriage return
as the end of a line too and keeps each line's end, so that the lines joined give the text back.
-/

namespace HttpStubs.Text

/-- How the lines of an artifact end. -/
inductive Newline where
  | lf
  | crlf
  deriving DecidableEq, Repr

/-- The characters that end a line. -/
def Newline.text : Newline → String
  | .lf => "\n"
  | .crlf => "\r\n"

/-- The lines of `cs`, where `line` holds what the current line has so far, last character first. -/
def linesFrom (line : List Char) : List Char → List String
  | [] => if line.isEmpty then [] else [String.ofList line.reverse]
  | '\n' :: cs => String.ofList line.reverse :: linesFrom [] cs
  | '\r' :: '\n' :: cs => String.ofList line.reverse :: linesFrom [] cs
  | c :: cs => linesFrom (c :: line) cs

/-- The lines of a text, without their ends; a line ends at `\n` or `\r\n`. -/
def lines (s : String) : List String :=
  linesFrom [] s.toList

/-- As `linesFrom`, for lines that keep their ends. -/
def terminatedLinesFrom (line : List Char) : List Char → List String
  | [] => if line.isEmpty then [] else [String.ofList line.reverse]
  | '\n' :: cs => String.ofList ('\n' :: line).reverse :: terminatedLinesFrom [] cs
  | '\r' :: '\n' :: cs => String.ofList ('\n' :: '\r' :: line).reverse :: terminatedLinesFrom [] cs
  | '\r' :: cs => String.ofList ('\r' :: line).reverse :: terminatedLinesFrom [] cs
  | c :: cs => terminatedLinesFrom (c :: line) cs

/-- The lines of a text with their ends; a line ends at `\n`, `\r\n` or a lone `\r`. -/
def terminatedLines (s : String) : List String :=
  terminatedLinesFrom [] s.toList

/-- Whether a line carries its end. -/
def isTerminated (line : String) : Bool :=
  match line.toList.getLast? with
  | some c => c == '\n' || c == '\r'
  | none => false

end HttpStubs.Text

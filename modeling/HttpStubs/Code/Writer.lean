import HttpStubs.Text.Lines

/-!
# The line writer

Code is built as a list of `Step`s, which a `Writer` turns into indented lines. A block writes its
opening line, its body one level deeper and its closing line, so nesting always balances. A blank
line is only asked for: it is written before the next line, and not at the start of the text, after
another empty line, after a line that opens a bracket or before a closing line.
-/

namespace HttpStubs.Code

/-- One instruction to the line writer. -/
inductive Step where
  /-- One line at the current depth. -/
  | line (text : String)
  /-- Each line of a longer text at the current depth. -/
  | lines (text : String)
  /-- Asks for a blank line before the next line. -/
  | blank
  /-- The body one level deeper, between an opening and a closing line. -/
  | block (opening closing : String) (body : List Step)
  /-- A block that continues the line of a closing brace just written. -/
  | chain (opening closing : String) (body : List Step)
  /-- The lines of steps written on their own, at the current depth. -/
  | append (steps : List Step)

/-- The lines written so far, with the state that decides how the next one is written. -/
structure Writer where
  /-- The lines, the newest first. -/
  written : List String := []
  depth : Nat := 0
  pendingBlank : Bool := false
  deriving DecidableEq, Repr

namespace Writer

/-- The indentation at a depth: one tab a level. -/
def tabs (depth : Nat) : String :=
  String.ofList (List.replicate depth '\t')

/-- Whether no blank line is written after this one: it is empty or opens a bracket. -/
def refusesBlank (line : String) : Bool :=
  match line.toList.getLast? with
  | none => true
  | some c => c == '\x7b' || c == '(' || c == '['

/-- Writes the blank line asked for, where it is allowed. -/
def flushBlank (w : Writer) : Writer :=
  if w.pendingBlank then
    match w.written with
    | [] => { w with pendingBlank := false }
    | last :: rest =>
      if refusesBlank last then { w with pendingBlank := false }
      else { w with written := "" :: last :: rest, pendingBlank := false }
  else w

/-- A line of text at a depth; an empty text is not indented. -/
def indented (depth : Nat) (text : String) : String :=
  if text = "" then "" else tabs depth ++ text

/-- Writes one line. -/
def line (w : Writer) (text : String) : Writer :=
  let w := w.flushBlank
  { w with written := indented w.depth text :: w.written }

/-- Writes lines one after the other. -/
def lineAll (w : Writer) (texts : List String) : Writer :=
  texts.foldl line w

/-- Asks for a blank line before the next line. -/
def blank (w : Writer) : Writer :=
  { w with pendingBlank := true }

/-- Writes an opening line and goes one level deeper. -/
def enter (w : Writer) (opening : String) : Writer :=
  let w := w.line opening
  { w with depth := w.depth + 1 }

/-- Goes one level up and writes a closing line. -/
def leave (w : Writer) (closing : String) : Writer :=
  { w with depth := w.depth - 1, pendingBlank := false }.line closing

/-- As `enter`, on the line of the closing brace just written at this depth if there is one. -/
def enterChain (w : Writer) (opening : String) : Writer :=
  match w.written with
  | last :: rest =>
    if !w.pendingBlank && last = tabs w.depth ++ "\x7d" then
      { w with written := rest }.enter ("\x7d " ++ opening)
    else w.enter opening
  | [] => w.enter opening

/-- Writes the lines of another writer at the current depth, with its pending blank line. -/
def append (w other : Writer) : Writer :=
  let w := w.lineAll other.written.reverse
  if other.pendingBlank then w.blank else w

/-- The text of the lines, each with its end. -/
def text (w : Writer) (newline : Text.Newline) : String :=
  String.join (w.written.reverse.map (· ++ newline.text))

end Writer

mutual

/-- Carries out one step. -/
def Step.run : Step → Writer → Writer
  | .line text, w => w.line text
  | .lines text, w => w.lineAll (Text.lines text)
  | .blank, w => w.blank
  | .block opening closing body, w => (Step.runAll body (w.enter opening)).leave closing
  | .chain opening closing body, w => (Step.runAll body (w.enterChain opening)).leave closing
  | .append steps, w => w.append (Step.runAll steps {})

/-- Carries out steps in order. -/
def Step.runAll : List Step → Writer → Writer
  | [], w => w
  | step :: steps, w => Step.runAll steps (step.run w)

end

/-- The writer after each step, in order. -/
def Step.trace : List Step → Writer → List Writer
  | [], _ => []
  | step :: steps, w => step.run w :: Step.trace steps (step.run w)

/-- A block in braces: the head with an opening brace, the body, a closing brace. -/
def Step.braces (head : String) (body : List Step) : Step :=
  .block (head ++ " \x7b") "\x7d" body

end HttpStubs.Code

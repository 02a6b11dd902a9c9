import HttpStubs.Diff.Script
import HttpStubs.Text.Lines

/-!
# Unified diffs

The printed form of an edit script: hunks of changes with three lines of context. Changes with at
most six equal lines between them share a hunk. In a change, deletions come first. A line without an
end is followed by a note.
-/

namespace HttpStubs.Diff

/-- A part of a script: equal lines, or a change. -/
inductive Block where
  | same (lines : List String)
  | change (deleted inserted : List String)
  deriving DecidableEq, Repr

/-- Puts an edit in front of blocks. -/
def addEdit : Edit → List Block → List Block
  | .keep line, .same lines :: blocks => .same (line :: lines) :: blocks
  | .keep line, blocks => .same [line] :: blocks
  | .delete line, .change deleted inserted :: blocks => .change (line :: deleted) inserted :: blocks
  | .delete line, blocks => .change [line] [] :: blocks
  | .insert line, .change deleted inserted :: blocks => .change deleted (line :: inserted) :: blocks
  | .insert line, blocks => .change [] [line] :: blocks

/-- The blocks of a script: equal lines and changes in turn. -/
def blocks (edits : List Edit) : List Block :=
  edits.foldr addEdit []

/-- Blocks that are printed together, with the number of lines before them on each side. -/
structure Hunk where
  oldStart : Nat
  newStart : Nat
  blocks : List Block
  deriving DecidableEq, Repr

/-- The number of equal lines around a change. -/
def radius : Nat := 3

/-- The hunk that begins with the last of some equal lines. -/
def Hunk.begin (oldStart newStart : Nat) (lines : List String) : Hunk :=
  let skipped := lines.length - radius
  ⟨oldStart + skipped, newStart + skipped, [.same (lines.drop skipped)]⟩

/-- Adds a block at the end. -/
def Hunk.add (h : Hunk) (block : Block) : Hunk :=
  { h with blocks := h.blocks ++ [block] }

/-- What equal lines between changes do to the hunk that is being filled: few of them are added to
it, many close it and begin the next. -/
def passSame (oldStart newStart : Nat) (lines : List String) : Option Hunk → List Hunk × Hunk
  | none => ([], .begin oldStart newStart lines)
  | some h =>
    if 2 * radius < lines.length then
      ([h.add (.same (lines.take radius))], .begin oldStart newStart lines)
    else ([], h.add (.same lines))

/-- The hunks of blocks, after so many lines on each side, with the hunk that is being filled. -/
def hunksFrom (oldStart newStart : Nat) (current : Option Hunk) : List Block → List Hunk
  | [] => current.toList
  | .change deleted inserted :: rest =>
    hunksFrom (oldStart + deleted.length) (newStart + inserted.length)
      (some ((current.getD ⟨oldStart, newStart, []⟩).add (.change deleted inserted))) rest
  | [.same lines] => (current.map (·.add (.same (lines.take radius)))).toList
  | .same lines :: rest =>
    let (closed, next) := passSame oldStart newStart lines current
    closed ++ hunksFrom (oldStart + lines.length) (newStart + lines.length) (some next) rest

/-- The hunks of a script. -/
def hunks (edits : List Edit) : List Hunk :=
  hunksFrom 0 0 none (blocks edits)

namespace Hunk

/-- The lines of a hunk on the old side. -/
def oldLines (h : Hunk) : List String :=
  h.blocks.flatMap fun
    | .same lines => lines
    | .change deleted _ => deleted

/-- The lines of a hunk on the new side. -/
def newLines (h : Hunk) : List String :=
  h.blocks.flatMap fun
    | .same lines => lines
    | .change _ inserted => inserted

/-- The lines that a hunk covers on one side; the length 1 is left out, and an empty range names the
line before it. -/
def range (start length : Nat) : String :=
  if length = 1 then (start + 1).repr
  else if length = 0 then start.repr ++ ",0"
  else (start + 1).repr ++ "," ++ length.repr

/-- The head of a hunk. -/
def header (h : Hunk) : String :=
  "@@ -" ++ range h.oldStart h.oldLines.length ++ " +" ++ range h.newStart h.newLines.length ++
    " @@\n"

/-- A line with its mark. -/
def printLine (mark line : String) : String :=
  mark ++ line ++ if Text.isTerminated line then "" else "\n\\ No newline at end of file\n"

/-- The lines of a block with their marks. -/
def printBlock : Block → String
  | .same lines => String.join (lines.map (printLine " "))
  | .change deleted inserted =>
    String.join (deleted.map (printLine "-")) ++ String.join (inserted.map (printLine "+"))

/-- The text of a hunk. -/
def print (h : Hunk) : String :=
  h.header ++ String.join (h.blocks.map printBlock)

end Hunk

/-- The unified diff of two texts under the given names, by some line diff; empty if that finds no
change. -/
def unified (differ : LineDiff) (oldName newName : String) (old new : String) : String :=
  match hunks (differ (Text.terminatedLines old) (Text.terminatedLines new)) with
  | [] => ""
  | hs => "--- " ++ oldName ++ "\n+++ " ++ newName ++ "\n" ++ String.join (hs.map (·.print))

end HttpStubs.Diff

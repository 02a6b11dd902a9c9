/-!
# Edit scripts

Ways from one list of lines to another by keeping, deleting and inserting lines. There can be
several shortest ones, and a line diff may take any of them. The one here keeps a line as early as
it can, and deletes before it inserts.
-/

namespace HttpStubs.Diff

/-- One step from an old list to a new one. -/
inductive Edit where
  | keep (line : String)
  | delete (line : String)
  | insert (line : String)
  deriving DecidableEq, Repr

/-- A way to compare lists of lines: the script from an old list to a new one. -/
abbrev LineDiff := List String → List String → List Edit

/-- A script with the number of its deletions and insertions. -/
structure Script where
  cost : Nat
  edits : List Edit
  deriving DecidableEq, Repr

namespace Script

/-- The script from no lines to `new`, and to each rest of it. -/
def insertions : List String → List Script
  | [] => [⟨0, []⟩]
  | line :: new =>
    match insertions new with
    | [] => []
    | s :: rest => ⟨s.cost + 1, .insert line :: s.edits⟩ :: s :: rest

/-- The best script for an old list that starts with `line`, against `new` and each rest of it. The
scripts given are those for the old list without `line`. -/
def extend (line : String) : List String → List Script → List Script
  | next :: new, skip :: rest =>
    match extend line new rest, rest with
    | down :: downs, diagonal :: _ =>
      (if line = next then ⟨diagonal.cost, .keep line :: diagonal.edits⟩
        else if skip.cost ≤ down.cost then ⟨skip.cost + 1, .delete line :: skip.edits⟩
        else ⟨down.cost + 1, .insert next :: down.edits⟩) :: down :: downs
    | _, _ => []
  | [], skip :: _ => [⟨skip.cost + 1, .delete line :: skip.edits⟩]
  | _, [] => []

/-- The best scripts from `old` to `new` and to each rest of it. -/
def table (old new : List String) : List Script :=
  old.foldr (fun line scripts => extend line new scripts) (insertions new)

end Script

/-- The script for lists that share no first line and no last line. -/
def coreScript (old new : List String) : List Edit :=
  match Script.table old new with
  | s :: _ => s.edits
  | [] => []

/-- Cuts off the lines that two lists start with. -/
def cutShared : List String → List String → List String × List String × List String
  | a :: as, b :: bs =>
    if a = b then
      let (shared, as, bs) := cutShared as bs
      (a :: shared, as, bs)
    else ([], a :: as, b :: bs)
  | as, bs => ([], as, bs)

/-- A shortest script from `old` to `new`. -/
def script (old new : List String) : List Edit :=
  let (front, old, new) := cutShared old new
  let (back, old, new) := cutShared old.reverse new.reverse
  front.map .keep ++ coreScript old.reverse new.reverse ++ back.reverse.map .keep

end HttpStubs.Diff

import Mathlib.Data.List.Basic
import Mathlib.Data.List.TakeDrop
import HttpStubs.Proofs.HunkLayout
import HttpStubs.Proofs.LiteralReading

/-!
# Reading a printed diff

A reader for unified diffs: heads with their ranges, lines by their marks, and the note that takes
the end off the line before it. It cuts the text into lines as the texts that are compared are cut,
at `\n`, `\r\n` or a lone `\r`. What it makes of a printed diff are the hunks that were printed
(`readPatch_unified`): no line of a text can be taken for another line of the diff, since each line
stands behind a mark.
-/

namespace HttpStubs

/-! ## Lines -/

namespace Text

/-- The ends of a line. -/
def lineEnds : List (List Char) :=
  [['\n'], ['\r', '\n'], ['\r']]

/-- No end of a line lies in the characters. -/
def Unbroken (cs : List Char) : Prop :=
  ∀ c ∈ cs, c ≠ '\n' ∧ c ≠ '\r'

theorem unbroken_of_all {cs : List Char} (h : cs.all (fun c => c != '\n' && c != '\r') = true) :
    Unbroken cs := by
  intro c hc
  simpa using List.all_eq_true.1 h c hc

theorem Unbroken.append {cs ds : List Char} (hcs : Unbroken cs) (hds : Unbroken ds) :
    Unbroken (cs ++ ds) :=
  List.forall_mem_append.2 ⟨hcs, hds⟩

theorem Unbroken.reverse {cs : List Char} (h : Unbroken cs) : Unbroken cs.reverse :=
  fun c hc => h c (List.mem_reverse.1 hc)

theorem unbroken_repr (n : ℕ) : Unbroken n.repr.toList := by
  intro c hc
  rw [Nat.toList_repr] at hc
  have hdigit : c.isDigit = true := Nat.isDigit_of_mem_toDigits (by decide) (by decide) hc
  constructor
  · rintro rfl
    exact absurd hdigit (by decide)
  · rintro rfl
    exact absurd hdigit (by decide)

/-- A line with its end. -/
def IsWhole (line : String) : Prop :=
  ∃ body ending, line.toList = body ++ ending ∧ Unbroken body ∧ ending ∈ lineEnds

theorem isTerminated_of_isWhole {line : String} (h : IsWhole line) : isTerminated line = true := by
  obtain ⟨body, ending, hline, -, hending⟩ := h
  rw [isTerminated, hline]
  simp only [lineEnds, List.mem_cons, List.not_mem_nil, or_false] at hending
  rcases hending with rfl | rfl | rfl <;> simp

theorem isTerminated_of_unbroken {line : String} (h : Unbroken line.toList) :
    isTerminated line = false := by
  unfold isTerminated
  cases hlast : line.toList.getLast? with
  | none => rfl
  | some c =>
    obtain ⟨hlf, hcr⟩ := h c (List.mem_of_getLast? hlast)
    simp [hlf, hcr]

theorem terminatedLinesFrom_append {body : List Char} (hbody : Unbroken body)
    (line rest : List Char) :
    terminatedLinesFrom line (body ++ rest) = terminatedLinesFrom (body.reverse ++ line) rest := by
  induction body generalizing line with
  | nil => rfl
  | cons c body ih =>
    obtain ⟨⟨hlf, hcr⟩, hbody⟩ := List.forall_mem_cons.1 hbody
    rw [List.reverse_cons, List.append_assoc, List.singleton_append, ← ih hbody]
    rw [List.cons_append, terminatedLinesFrom]
    · exact hlf
    · intro cs h
      exact absurd h hcr
    · exact hcr

theorem terminatedLinesFrom_end {ending rest : List Char} (hending : ending ∈ lineEnds)
    (hrest : rest.head? ≠ some '\n') (line : List Char) :
    terminatedLinesFrom line (ending ++ rest) =
      String.ofList (line.reverse ++ ending) :: terminatedLinesFrom [] rest := by
  simp only [lineEnds, List.mem_cons, List.not_mem_nil, or_false] at hending
  rcases hending with rfl | rfl | rfl
  · simp [terminatedLinesFrom]
  · simp [terminatedLinesFrom]
  · cases rest with
    | nil => simp [terminatedLinesFrom]
    | cons c cs =>
      have hc : c ≠ '\n' := fun h => hrest (congrArg some h)
      rw [List.singleton_append, terminatedLinesFrom]
      · simp
      · intro cs' h
        exact absurd (List.cons.inj h).1 hc

/-- Whole lines that are joined are found again; no line may begin with a line feed, which would
belong to a carriage return before it. -/
theorem terminatedLines_join {lines : List String} (hwhole : ∀ line ∈ lines, IsWhole line)
    (hstart : ∀ line ∈ lines, line.toList.head? ≠ some '\n') :
    terminatedLines (String.join lines) = lines := by
  rw [terminatedLines]
  induction lines with
  | nil => rfl
  | cons line lines ih =>
    obtain ⟨hline, hlines⟩ := List.forall_mem_cons.1 hwhole
    obtain ⟨body, ending, hparts, hbody, hending⟩ := hline
    have hrest : (String.join lines).toList.head? ≠ some '\n' := by
      cases lines with
      | nil => simp
      | cons next lines =>
        obtain ⟨body', ending', hnext, -, hending'⟩ := hlines next List.mem_cons_self
        have hne : next.toList ≠ [] := by
          intro hempty
          rw [hempty] at hnext
          rw [(List.append_eq_nil_iff.1 hnext.symm).2] at hending'
          exact absurd hending' (by decide)
        rw [String.join_cons, String.toList_append, List.head?_append_of_ne_nil _ hne]
        exact hstart next (by simp)
    rw [String.join_cons, String.toList_append, hparts, List.append_assoc,
      terminatedLinesFrom_append hbody, terminatedLinesFrom_end hending hrest,
      ih hlines fun line hline => hstart line (List.mem_cons_of_mem _ hline)]
    rw [List.append_nil, List.reverse_reverse, ← hparts, String.ofList_toList]

theorem isWhole_ofList {line ending : List Char} (hline : Unbroken line)
    (hending : ending ∈ lineEnds) : IsWhole (String.ofList (line ++ ending)) :=
  ⟨line, ending, String.toList_ofList, hline, hending⟩

theorem whole_or_unbroken_from {line cs : List Char} (hline : Unbroken line) :
    ∀ l ∈ terminatedLinesFrom line cs, IsWhole l ∨ Unbroken l.toList := by
  fun_induction terminatedLinesFrom line cs with
  | case1 => simp
  | case2 line _ =>
    intro l hl
    rw [List.mem_singleton.1 hl, String.toList_ofList]
    exact .inr hline.reverse
  | case3 line cs ih =>
    refine List.forall_mem_cons.2 ⟨.inl ?_, ih (by simp [Unbroken])⟩
    rw [List.reverse_cons]
    exact isWhole_ofList hline.reverse (by decide)
  | case4 line cs ih =>
    refine List.forall_mem_cons.2 ⟨.inl ?_, ih (by simp [Unbroken])⟩
    rw [List.reverse_cons, List.reverse_cons, List.append_assoc]
    exact isWhole_ofList hline.reverse (by decide)
  | case5 line cs _ ih =>
    refine List.forall_mem_cons.2 ⟨.inl ?_, ih (by simp [Unbroken])⟩
    rw [List.reverse_cons]
    exact isWhole_ofList hline.reverse (by decide)
  | case6 line c cs hlf _ hcr ih =>
    exact ih (List.forall_mem_cons.2 ⟨⟨fun h => hlf h, fun h => hcr h⟩, hline⟩)

/-- A line of a text has its end, or it is the last one and has none. -/
theorem whole_or_unbroken {s line : String} (h : line ∈ terminatedLines s) :
    IsWhole line ∨ Unbroken line.toList :=
  whole_or_unbroken_from (by simp [Unbroken]) line h

end Text

namespace Diff

open Code (after? after?_append)
open Text (Unbroken IsWhole isTerminated terminatedLines)

/-! ## The reader -/

/-- The lines that a head names on one side: the number of the first one, or of the line before an
empty range, and how many they are. -/
structure Range where
  start : ℕ
  length : ℕ
  deriving DecidableEq, Repr

/-- The range of so many lines behind the first `before` lines. -/
def Range.behind (before length : ℕ) : Range :=
  ⟨if length = 0 then before else before + 1, length⟩

/-- The number of lines before a range. -/
def Range.before (r : Range) : ℕ :=
  if r.length = 0 then r.start else r.start - 1

/-- A hunk of a diff that was read. -/
structure PatchHunk where
  oldRange : Range
  newRange : Range
  edits : List Edit
  deriving DecidableEq, Repr

/-- The range of a hunk on a side. -/
def PatchHunk.range (h : PatchHunk) (side : Side) : Range :=
  side.pick h.oldRange h.newRange

/-- A number, and what follows it. -/
def readNumber (cs : List Char) : Option (ℕ × List Char) :=
  let digits := cs.takeWhile Char.isDigit
  if digits = [] then none else some (Nat.ofDigitChars 10 digits 0, cs.dropWhile Char.isDigit)

/-- A range, and what follows it; the length 1 may be left out. -/
def readRange (cs : List Char) : Option (Range × List Char) :=
  (readNumber cs).bind fun (start, rest) =>
    match rest with
    | ',' :: rest => (readNumber rest).map fun (length, rest) => (⟨start, length⟩, rest)
    | _ => some (⟨start, 1⟩, rest)

/-- A line of a diff: the head of a hunk, a line with its mark, or the note on the line before. -/
inductive PatchLine where
  | head (oldRange newRange : Range)
  | edit (edit : Edit)
  | noEnd
  deriving DecidableEq, Repr

/-- The head of a hunk. -/
def readHead (line : String) : Option PatchLine :=
  (after? "@@ -" line).bind fun cs =>
    (readRange cs).bind fun (oldRange, cs) =>
      (after? " +" (String.ofList cs)).bind fun cs =>
        (readRange cs).bind fun (newRange, cs) =>
          if cs = " @@\n".toList then some (.head oldRange newRange) else none

/-- The note on a line without an end. -/
def noEndNote : String :=
  "\\ No newline at end of file\n"

/-- A line of a diff. -/
def readLine (line : String) : Option PatchLine :=
  match line.toList with
  | ' ' :: cs => some (.edit (.keep (String.ofList cs)))
  | '-' :: cs => some (.edit (.delete (String.ofList cs)))
  | '+' :: cs => some (.edit (.insert (String.ofList cs)))
  | _ => if line = noEndNote then some .noEnd else readHead line

/-- The edit with another line. -/
def Edit.mapLine (f : String → String) : Edit → Edit
  | .keep line => .keep (f line)
  | .delete line => .delete (f line)
  | .insert line => .insert (f line)

/-- A line without its last character. -/
def withoutEnd (line : String) : String :=
  String.ofList line.toList.dropLast

/-- The hunks of lines, and the edits in front of them. -/
def gather : List PatchLine → Option (List Edit × List PatchHunk)
  | [] => some ([], [])
  | .head oldRange newRange :: rest =>
    (gather rest).map fun (edits, hs) => ([], ⟨oldRange, newRange, edits⟩ :: hs)
  | .edit edit :: .noEnd :: rest =>
    (gather rest).map fun (edits, hs) => (edit.mapLine withoutEnd :: edits, hs)
  | .edit edit :: rest => (gather rest).map fun (edits, hs) => (edit :: edits, hs)
  | .noEnd :: _ => none

/-- The hunks of the part of a diff below the names; it begins with a hunk. -/
def readHunks (text : String) : Option (List PatchHunk) :=
  (((terminatedLines text).mapM readLine).bind gather).bind fun (edits, hs) =>
    if edits = [] then some hs else none

/-- The hunks of a diff under the given names; no text at all is a diff without a hunk. -/
def readPatch (oldName newName text : String) : Option (List PatchHunk) :=
  if text = "" then some []
  else (after? ("--- " ++ oldName ++ "\n+++ " ++ newName ++ "\n") text).bind fun cs =>
    readHunks (String.ofList cs)

/-! ## Heads -/

theorem readNumber_repr (n : ℕ) {rest : List Char} (hrest : ∀ c ∈ rest.head?, c.isDigit = false) :
    readNumber (n.repr.toList ++ rest) = some (n, rest) := by
  have hdigits : ∀ c ∈ Nat.toDigits 10 n, c.isDigit = true := fun c =>
    Nat.isDigit_of_mem_toDigits (by decide) (by decide)
  have hstop : rest.takeWhile Char.isDigit = [] ∧ rest.dropWhile Char.isDigit = rest := by
    cases rest with
    | nil => exact ⟨rfl, rfl⟩
    | cons c cs =>
      have hc := hrest c rfl
      exact ⟨List.takeWhile_cons_of_neg (by simp [hc]), List.dropWhile_cons_of_neg (by simp [hc])⟩
  rw [readNumber, Nat.toList_repr, List.takeWhile_append_of_pos hdigits,
    List.dropWhile_append_of_pos hdigits, hstop.1, hstop.2, List.append_nil,
    if_neg Nat.toDigits_ne_nil, Nat.ofDigitChars_ten_toDigits]

theorem readRange_pair (start length : ℕ) (rest : List Char) :
    readRange (start.repr.toList ++ ',' :: (length.repr.toList ++ ' ' :: rest)) =
      some (⟨start, length⟩, ' ' :: rest) := by
  rw [readRange, readNumber_repr _ (by simp), Option.bind_some]
  simp only
  rw [readNumber_repr _ (by simp), Option.map_some]

theorem readRange_range (before length : ℕ) (rest : List Char) :
    readRange ((Hunk.range before length).toList ++ ' ' :: rest) =
      some (.behind before length, ' ' :: rest) := by
  unfold Hunk.range Range.behind
  split_ifs with hone hzero hzero
  · omega
  · rw [hone, readRange, readNumber_repr _ (by simp)]
    rfl
  · rw [hzero]
    simpa using readRange_pair before 0 rest
  · simpa using readRange_pair (before + 1) length rest

theorem Hunk.linesOn_edits (h : Hunk) (side : Side) :
    linesOn side h.edits = h.blocks.flatMap (Block.on side) := by
  rw [edits]
  induction h.blocks with
  | nil => rfl
  | cons block blocks ih =>
    rw [editsOf_cons, linesOn_append, Diff.linesOn_edits, ih, List.flatMap_cons]

theorem Hunk.oldLines_eq (h : Hunk) : h.oldLines = linesOn .old h.edits := by
  rw [h.linesOn_edits, oldLines]
  congr 1
  funext block
  cases block <;> rfl

theorem Hunk.newLines_eq (h : Hunk) : h.newLines = linesOn .new h.edits := by
  rw [h.linesOn_edits, newLines]
  congr 1
  funext block
  cases block <;> rfl

/-- The range of a hunk on a side. -/
def Hunk.place (h : Hunk) (side : Side) : Range :=
  .behind (h.start side) (linesOn side h.edits).length

theorem readHead_header (h : Hunk) :
    readHead h.header = some (.head (h.place .old) (h.place .new)) := by
  have hheader : h.header = "@@ -" ++ String.ofList
      ((Hunk.range h.oldStart h.oldLines.length).toList ++ ' ' :: ('+' ::
        ((Hunk.range h.newStart h.newLines.length).toList ++ ' ' :: "@@\n".toList))) := by
    rw [Hunk.header, ← String.toList_inj]
    simp
  have hplus : ∀ cs, String.ofList (' ' :: '+' :: cs) = " +" ++ String.ofList cs := by
    intro cs
    rw [← String.toList_inj]
    simp
  rw [hheader, readHead, after?_append, Option.bind_some, String.toList_ofList, readRange_range,
    Option.bind_some]
  simp only
  rw [hplus, after?_append, Option.bind_some, String.toList_ofList, readRange_range,
    Option.bind_some]
  simp only
  rw [if_pos (by simp), Hunk.place, Hunk.place, h.oldLines_eq, h.newLines_eq]
  rfl

/-! ## Lines with their marks -/

/-- The mark of an edit. -/
def Edit.mark : Edit → String
  | .keep _ => " "
  | .delete _ => "-"
  | .insert _ => "+"

/-- The line of an edit. -/
def Edit.line : Edit → String
  | .keep line | .delete line | .insert line => line

/-- The lines that are printed for an edit. -/
def Edit.printed (edit : Edit) : List String :=
  if isTerminated edit.line then [edit.mark ++ edit.line]
  else [edit.mark ++ edit.line ++ "\n", noEndNote]

/-- What is read from the lines of an edit. -/
def Edit.patchLines (edit : Edit) : List PatchLine :=
  if isTerminated edit.line then [.edit edit] else [.edit (edit.mapLine (· ++ "\n")), .noEnd]

theorem readLine_mark (edit : Edit) (line : String) :
    readLine (edit.mark ++ line) = some (.edit (edit.mapLine fun _ => line)) := by
  cases edit <;> simp [readLine, Edit.mark, Edit.mapLine]

theorem readLine_noEndNote : readLine noEndNote = some .noEnd :=
  rfl

theorem readLine_header (h : Hunk) :
    readLine h.header = some (.head (h.place .old) (h.place .new)) := by
  obtain ⟨cs, hcs⟩ : ∃ cs, h.header.toList = '@' :: cs := by
    rw [Hunk.header]
    simp
  have hnote : h.header ≠ noEndNote := by
    intro heq
    rw [heq] at hcs
    exact absurd (List.cons.inj hcs).1 (by decide)
  unfold readLine
  rw [hcs, if_neg hnote, readHead_header]
  rfl

theorem mapM_printed (edit : Edit) : edit.printed.mapM readLine = some edit.patchLines := by
  unfold Edit.printed Edit.patchLines
  split
  · rw [List.mapM_cons, readLine_mark]
    cases edit <;> rfl
  · rw [List.mapM_cons, String.append_assoc, readLine_mark, List.mapM_cons, readLine_noEndNote]
    cases edit <;> rfl

/-- The lines that are printed for a hunk. -/
def Hunk.printed (h : Hunk) : List String :=
  h.header :: h.edits.flatMap Edit.printed

/-- The hunk that is read from the lines of a hunk. -/
def Hunk.patch (h : Hunk) : PatchHunk :=
  ⟨h.place .old, h.place .new, h.edits⟩

theorem join_edit_printed (edit : Edit) :
    String.join edit.printed = Hunk.printLine edit.mark edit.line := by
  unfold Edit.printed Hunk.printLine
  split
  · simp
  · simp [noEndNote, ← String.toList_inj]

/-- Lines that are printed with one mark, for edits of one kind. -/
theorem join_map_printLine (make : String → Edit) (mark : String)
    (hmark : ∀ line, (make line).mark = mark) (hline : ∀ line, (make line).line = line)
    (lines : List String) :
    String.join (lines.map (Hunk.printLine mark)) =
      String.join ((lines.map make).flatMap Edit.printed) := by
  induction lines with
  | nil => rfl
  | cons line lines ih =>
    rw [List.map_cons, String.join_cons, ih, List.map_cons, List.flatMap_cons, String.join_append,
      join_edit_printed, hmark, hline]

theorem printBlock_eq (block : Block) :
    Hunk.printBlock block = String.join (block.edits.flatMap Edit.printed) := by
  cases block with
  | same lines => exact join_map_printLine .keep " " (fun _ => rfl) (fun _ => rfl) lines
  | change deleted inserted =>
    have hdeleted := join_map_printLine .delete "-" (fun _ => rfl) (fun _ => rfl) deleted
    have hinserted := join_map_printLine .insert "+" (fun _ => rfl) (fun _ => rfl) inserted
    rw [Hunk.printBlock, hdeleted, hinserted, Block.edits, List.flatMap_append, String.join_append]

theorem Hunk.print_eq_join (h : Hunk) : h.print = String.join h.printed := by
  rw [printed, String.join_cons, print, edits]
  congr 1
  induction h.blocks with
  | nil => rfl
  | cons block blocks ih =>
    rw [List.map_cons, String.join_cons, ih, printBlock_eq, editsOf_cons, List.flatMap_append,
      String.join_append]

/-! ## Whole diffs -/

theorem gather_patchLines (edit : Edit) {rest : List PatchLine}
    (hrest : rest.head? ≠ some .noEnd) :
    gather (edit.patchLines ++ rest) = (gather rest).map (Prod.map (edit :: ·) id) := by
  unfold Edit.patchLines
  split
  · rw [List.singleton_append, gather]
    · rfl
    · intro rest' h
      rw [h] at hrest
      exact hrest rfl
  · have hback : (edit.mapLine (· ++ "\n")).mapLine withoutEnd = edit := by
      cases edit <;> simp [Edit.mapLine, withoutEnd]
    rw [List.cons_append, List.singleton_append, gather, hback]
    rfl

theorem head?_patchLines (edit : Edit) : ∃ e, edit.patchLines.head? = some (.edit e) := by
  unfold Edit.patchLines
  split <;> exact ⟨_, rfl⟩

theorem gather_flatMap_patchLines (edits : List Edit) {rest : List PatchLine}
    (hrest : rest.head? ≠ some .noEnd) :
    gather (edits.flatMap Edit.patchLines ++ rest) =
      (gather rest).map (Prod.map (edits ++ ·) id) := by
  induction edits with
  | nil =>
    have hid : Prod.map (([] : List Edit) ++ ·) (id : List PatchHunk → List PatchHunk) = id := rfl
    rw [List.flatMap_nil, List.nil_append, hid, Option.map_id, id]
  | cons edit edits ih =>
    have hnext : (edits.flatMap Edit.patchLines ++ rest).head? ≠ some .noEnd := by
      cases edits with
      | nil => exact hrest
      | cons next edits =>
        obtain ⟨e, he⟩ := head?_patchLines next
        rw [List.flatMap_cons, List.append_assoc, List.head?_append, he]
        simp
    rw [List.flatMap_cons, List.append_assoc, gather_patchLines edit hnext, ih, Option.map_map]
    rfl

/-- What is read from the lines of a hunk. -/
def Hunk.patchLines (h : Hunk) : List PatchLine :=
  .head (h.place .old) (h.place .new) :: h.edits.flatMap Edit.patchLines

theorem mapM_flatMap {α : Type} {printed : α → List String} {read : α → List PatchLine}
    {xs : List α} (h : ∀ x ∈ xs, (printed x).mapM readLine = some (read x)) :
    (xs.flatMap printed).mapM readLine = some (xs.flatMap read) := by
  induction xs with
  | nil => rfl
  | cons x xs ih =>
    obtain ⟨hx, hxs⟩ := List.forall_mem_cons.1 h
    rw [List.flatMap_cons, List.mapM_append, hx, ih hxs, List.flatMap_cons]
    rfl

theorem Hunk.mapM_printed (h : Hunk) : h.printed.mapM readLine = some h.patchLines := by
  rw [printed, List.mapM_cons, readLine_header, mapM_flatMap fun edit _ => Diff.mapM_printed edit]
  rfl

theorem gather_hunks (hs : List Hunk) :
    gather (hs.flatMap Hunk.patchLines) = some ([], hs.map Hunk.patch) := by
  induction hs with
  | nil => rfl
  | cons h hs ih =>
    have hnext : (hs.flatMap Hunk.patchLines).head? ≠ some .noEnd := by
      cases hs with
      | nil => simp
      | cons next hs => simp [Hunk.patchLines]
    rw [List.flatMap_cons, Hunk.patchLines, List.cons_append, gather,
      gather_flatMap_patchLines h.edits hnext, ih]
    simp [Hunk.patch]

/-- The edit has a line as texts have them. -/
def Edit.IsFair (edit : Edit) : Prop :=
  IsWhole edit.line ∨ Unbroken edit.line.toList

theorem Edit.mark_cases (edit : Edit) :
    ∃ c, edit.mark = String.singleton c ∧ c ≠ '\n' ∧ c ≠ '\r' := by
  cases edit
  · exact ⟨' ', rfl, by decide, by decide⟩
  · exact ⟨'-', rfl, by decide, by decide⟩
  · exact ⟨'+', rfl, by decide, by decide⟩

theorem Edit.isWhole_printed {edit : Edit} (h : edit.IsFair) :
    ∀ line ∈ edit.printed, IsWhole line ∧ line.toList.head? ≠ some '\n' := by
  obtain ⟨c, hmark, hlf, hcr⟩ := edit.mark_cases
  unfold printed
  rcases h with hwhole | hopen
  · rw [if_pos (Text.isTerminated_of_isWhole hwhole), hmark]
    obtain ⟨body, ending, hline, hbody, hending⟩ := hwhole
    refine List.forall_mem_singleton.2 ⟨⟨c :: body, ending, ?_, ?_, hending⟩, ?_⟩
    · simp [hline]
    · exact List.forall_mem_cons.2 ⟨⟨hlf, hcr⟩, hbody⟩
    · simpa using hlf
  · rw [if_neg (by simp [Text.isTerminated_of_unbroken hopen]), hmark]
    refine List.forall_mem_cons.2 ⟨⟨⟨c :: edit.line.toList, ['\n'], ?_, ?_, by decide⟩, ?_⟩,
      List.forall_mem_singleton.2 ⟨?_, by decide⟩⟩
    · simp
    · exact List.forall_mem_cons.2 ⟨⟨hlf, hcr⟩, hopen⟩
    · simpa using hlf
    · exact ⟨"\\ No newline at end of file".toList, ['\n'], by decide, Text.unbroken_of_all rfl,
        by decide⟩

theorem Hunk.unbroken_range (start length : ℕ) : Unbroken (range start length).toList := by
  unfold range
  split_ifs
  · exact Text.unbroken_repr _
  · rw [String.toList_append]
    exact (Text.unbroken_repr _).append (Text.unbroken_of_all rfl)
  · rw [String.toList_append, String.toList_append]
    exact ((Text.unbroken_repr _).append (Text.unbroken_of_all rfl)).append (Text.unbroken_repr _)

theorem Hunk.isWhole_header (h : Hunk) : IsWhole h.header ∧ h.header.toList.head? ≠ some '\n' := by
  refine ⟨⟨"@@ -".toList ++ ((range h.oldStart h.oldLines.length).toList ++ (" +".toList ++
    ((range h.newStart h.newLines.length).toList ++ " @@".toList))), ['\n'], ?_, ?_, by decide⟩, ?_⟩
  · rw [header]
    simp
  · refine Unbroken.append (Text.unbroken_of_all rfl) ((unbroken_range _ _).append ?_)
    exact Unbroken.append (Text.unbroken_of_all rfl)
      ((unbroken_range _ _).append (Text.unbroken_of_all rfl))
  · rw [header]
    simp

theorem readHunks_print {hs : List Hunk} (h : ∀ x ∈ hs, ∀ edit ∈ x.edits, edit.IsFair) :
    readHunks (String.join (hs.map Hunk.print)) = some (hs.map Hunk.patch) := by
  have hjoin : String.join (hs.map Hunk.print) = String.join (hs.flatMap Hunk.printed) := by
    clear h
    induction hs with
    | nil => rfl
    | cons x hs ih =>
      rw [List.map_cons, String.join_cons, x.print_eq_join, ih, List.flatMap_cons,
        String.join_append]
  have hfair : ∀ line ∈ hs.flatMap Hunk.printed,
      IsWhole line ∧ line.toList.head? ≠ some '\n' := by
    intro line hline
    obtain ⟨x, hx, hline⟩ := List.mem_flatMap.1 hline
    rcases List.mem_cons.1 hline with rfl | hline
    · exact x.isWhole_header
    · obtain ⟨edit, hedit, hline⟩ := List.mem_flatMap.1 hline
      exact Edit.isWhole_printed (h x hx edit hedit) line hline
  rw [readHunks, hjoin, Text.terminatedLines_join (fun line hline => (hfair line hline).1)
    fun line hline => (hfair line hline).2, mapM_flatMap fun x _ => x.mapM_printed,
    Option.bind_some, gather_hunks]
  rfl

theorem Edit.exists_mem_linesOn {edit : Edit} {edits : List Edit} (h : edit ∈ edits) :
    ∃ side, edit.line ∈ linesOn side edits := by
  cases edit with
  | keep line => exact ⟨.old, List.mem_filterMap.2 ⟨_, h, rfl⟩⟩
  | delete line => exact ⟨.old, List.mem_filterMap.2 ⟨_, h, rfl⟩⟩
  | insert line => exact ⟨.new, List.mem_filterMap.2 ⟨_, h, rfl⟩⟩

section

variable {edits : List Edit} {old new : String}

/-- The lines on a side of the blocks of a script are those of the text there. -/
theorem linesOn_blocks (h : Leads edits (terminatedLines old) (terminatedLines new)) (side : Side) :
    linesOn side (editsOf (blocks edits)) = terminatedLines (side.pick old new) := by
  rw [(alike_blocks _).lines_eq, h.linesOn_eq]
  cases side <;> rfl

theorem isFair_of_mem_hunks (h : Leads edits (terminatedLines old) (terminatedLines new))
    {x : Hunk} (hx : x ∈ hunks edits) {edit : Edit} (hedit : edit ∈ x.edits) : edit.IsFair := by
  obtain ⟨side, hline⟩ := Edit.exists_mem_linesOn hedit
  obtain ⟨before, after, hlines, -⟩ := (cuts_hunks _).covers hx side
  rw [linesOn_blocks h] at hlines
  apply Text.whole_or_unbroken (s := side.pick old new)
  rw [hlines]
  simp [hline]

end

/-- A diff is read as the hunks that were printed. -/
theorem readPatch_unified {differ : LineDiff} {old new : String}
    (h : Leads (differ (terminatedLines old) (terminatedLines new)) (terminatedLines old)
      (terminatedLines new)) (oldName newName : String) :
    readPatch oldName newName (unified differ oldName newName old new) =
      some ((hunks (differ (terminatedLines old) (terminatedLines new))).map Hunk.patch) := by
  have hread := readHunks_print fun x hx edit hedit => isFair_of_mem_hunks h hx hedit
  unfold unified
  cases hhunks : hunks (differ (terminatedLines old) (terminatedLines new)) with
  | nil => rfl
  | cons first rest =>
    rw [hhunks] at hread
    simp only
    rw [readPatch, if_neg, after?_append, Option.bind_some, String.ofList_toList, hread]
    simp [← String.toList_inj]

end Diff

end HttpStubs

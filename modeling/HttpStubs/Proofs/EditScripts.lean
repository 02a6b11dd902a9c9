import Mathlib.Data.List.Basic
import Mathlib.Data.List.Forall2
import HttpStubs.Diff.Script
import HttpStubs.Text.Lines

/-!
# Edit scripts lead from the old lines to the new

What it means that edits lead from one list of lines to another (`Leads`). `script` does so
(`leads_script`), as does every script in the table it is taken from. A text is the concatenation of
its lines, so that texts with the same lines are equal.
-/

namespace HttpStubs

namespace Text

theorem join_terminatedLinesFrom (line cs : List Char) :
    String.join (terminatedLinesFrom line cs) = String.ofList (line.reverse ++ cs) := by
  fun_induction terminatedLinesFrom line cs with
  | case1 line hempty =>
    rw [List.isEmpty_iff.1 hempty]
    rfl
  | case2 line hline => simp
  | case3 line cs ih => simp [ih, ← String.toList_inj]
  | case4 line cs ih => simp [ih, ← String.toList_inj]
  | case5 line cs _ ih => simp [ih, ← String.toList_inj]
  | case6 line c cs _ _ _ ih => simp [ih]

/-- The lines of a text with their ends are the text. -/
theorem join_terminatedLines (s : String) : String.join (terminatedLines s) = s := by
  rw [terminatedLines, join_terminatedLinesFrom]
  simp

theorem terminatedLines_inj {s t : String} : terminatedLines s = terminatedLines t ↔ s = t := by
  refine ⟨fun h => ?_, fun h => h ▸ rfl⟩
  rw [← join_terminatedLines s, h, join_terminatedLines]

end Text

namespace Diff

/-- The edits lead from the old lines to the new ones. -/
inductive Leads : List Edit → List String → List String → Prop
  | nil : Leads [] [] []
  | keep {edits : List Edit} {old new : List String} (line : String) :
    Leads edits old new → Leads (.keep line :: edits) (line :: old) (line :: new)
  | delete {edits : List Edit} {old new : List String} (line : String) :
    Leads edits old new → Leads (.delete line :: edits) (line :: old) new
  | insert {edits : List Edit} {old new : List String} (line : String) :
    Leads edits old new → Leads (.insert line :: edits) old (line :: new)

theorem Leads.append {edits more : List Edit} {old old' new new' : List String}
    (h : Leads edits old new) (h' : Leads more old' new') :
    Leads (edits ++ more) (old ++ old') (new ++ new') := by
  induction h with
  | nil => exact h'
  | keep line _ ih => exact ih.keep line
  | delete line _ ih => exact ih.delete line
  | insert line _ ih => exact ih.insert line

theorem leads_keep (lines : List String) : Leads (lines.map .keep) lines lines := by
  induction lines with
  | nil => exact .nil
  | cons line lines ih => exact ih.keep line

/-! ## The table -/

namespace Script

section

variable {P : Script → List String → Prop} {new : List String} {s : Script} {rest : List Script}

theorem head_of_tails (h : List.Forall₂ P (s :: rest) new.tails) : P s new := by
  cases new <;> exact (List.forall₂_cons.1 h).1

theorem exists_cons_of_tails {scripts : List Script} (h : List.Forall₂ P scripts new.tails) :
    ∃ s rest, scripts = s :: rest := by
  cases scripts with
  | nil => cases new <;> cases h
  | cons s rest => exact ⟨s, rest, rfl⟩

end

/-- Scripts from `old` to `new` and to each rest of it, in this order. -/
def Covers (old new : List String) (scripts : List Script) : Prop :=
  List.Forall₂ (fun (s : Script) rest => Leads s.edits old rest) scripts new.tails

theorem covers_insertions (new : List String) : Covers [] new (insertions new) := by
  induction new with
  | nil => exact .cons .nil .nil
  | cons line new ih =>
    unfold insertions
    cases h : insertions new with
    | nil =>
      rw [h] at ih
      cases new <;> cases ih
    | cons s rest =>
      rw [h] at ih
      have hfirst : Leads s.edits [] new := by
        cases new <;> exact (List.forall₂_cons.1 ih).1
      exact .cons (hfirst.insert line) ih

theorem Covers.head {old new : List String} {s : Script} {rest : List Script}
    (h : Covers old new (s :: rest)) : Leads s.edits old new :=
  head_of_tails h

theorem Covers.tail {old new : List String} {line : String} {s : Script} {rest : List Script}
    (h : Covers old (line :: new) (s :: rest)) : Covers old new rest :=
  (List.forall₂_cons.1 h).2

theorem Covers.exists_cons {old new : List String} {scripts : List Script}
    (h : Covers old new scripts) : ∃ s rest, scripts = s :: rest :=
  exists_cons_of_tails h

/-- One more old line: keep it, delete it, or insert in front of it. -/
theorem covers_extend {old new : List String} {scripts : List Script}
    (h : Covers old new scripts) (line : String) :
    Covers (line :: old) new (extend line new scripts) := by
  induction new generalizing scripts with
  | nil =>
    obtain ⟨skip, rest, rfl⟩ := h.exists_cons
    exact .cons (h.head.delete line) .nil
  | cons next new ih =>
    obtain ⟨skip, rest, rfl⟩ := h.exists_cons
    obtain ⟨diagonal, _, rfl⟩ := h.tail.exists_cons
    have hdowns := ih h.tail
    obtain ⟨down, downs, hextend⟩ := hdowns.exists_cons
    rw [hextend] at hdowns
    unfold extend
    rw [hextend]
    refine .cons ?_ hdowns
    split_ifs with hsame
    · subst hsame
      exact h.tail.head.keep line
    · exact h.head.delete line
    · exact hdowns.head.insert next

theorem covers_table (old new : List String) : Covers old new (table old new) := by
  induction old with
  | nil => exact covers_insertions new
  | cons line old ih => exact covers_extend ih line

end Script

theorem leads_coreScript (old new : List String) : Leads (coreScript old new) old new := by
  have hcovers := Script.covers_table old new
  obtain ⟨s, rest, htable⟩ := hcovers.exists_cons
  rw [htable] at hcovers
  unfold coreScript
  rw [htable]
  exact hcovers.head

theorem cutShared_eq (old new : List String) :
    old = (cutShared old new).1 ++ (cutShared old new).2.1 ∧
      new = (cutShared old new).1 ++ (cutShared old new).2.2 := by
  fun_induction cutShared old new with
  | case1 old line new shared old' new' hcut ih =>
    rw [hcut] at ih
    exact ⟨congrArg (line :: ·) ih.1, congrArg (line :: ·) ih.2⟩
  | case2 => exact ⟨rfl, rfl⟩
  | case3 => exact ⟨rfl, rfl⟩

/-- The script keeps what the lists share at the front and at the back. -/
theorem exists_script_eq (old new : List String) :
    ∃ front core core' back, old = front ++ core ++ back ∧ new = front ++ core' ++ back ∧
      script old new = front.map .keep ++ coreScript core core' ++ back.map .keep := by
  obtain ⟨hold, hnew⟩ := cutShared_eq old new
  rcases hfront : cutShared old new with ⟨front, old', new'⟩
  rw [hfront] at hold hnew
  obtain ⟨hold', hnew'⟩ := cutShared_eq old'.reverse new'.reverse
  rcases hback : cutShared old'.reverse new'.reverse with ⟨back, core, core'⟩
  rw [hback] at hold' hnew'
  refine ⟨front, core.reverse, core'.reverse, back.reverse, ?_, ?_, ?_⟩
  · rw [hold, ← List.reverse_reverse old', hold', List.reverse_append, List.append_assoc]
  · rw [hnew, ← List.reverse_reverse new', hnew', List.reverse_append, List.append_assoc]
  · simp only [script, hfront, hback]

/-- The script leads from the old lines to the new ones. -/
theorem leads_script (old new : List String) : Leads (script old new) old new := by
  obtain ⟨front, core, core', back, hold, hnew, hscript⟩ := exists_script_eq old new
  rw [hscript, hold, hnew]
  exact ((leads_keep front).append (leads_coreScript core core')).append (leads_keep back)

end Diff

end HttpStubs

import Mathlib.Data.List.Basic
import HttpStubs.Proofs.EditScripts

/-!
# Shortest scripts

What a line diff promises: a script that leads from the old lines to the new ones, with as few
deletions and insertions as any (`LineDiff.Lawful`). Which of several shortest scripts it takes is
left open.

`script` keeps the promise (`lawful_script`). Where two lists begin with the same line, some
shortest script keeps it (`Leads.cut_same`), so that nothing is lost by cutting off what the lists
share at the front and, as scripts can be read backwards, at the back. In between the table holds
shortest scripts, row by row.
-/

namespace HttpStubs.Diff

/-- Whether an edit deletes or inserts. -/
def Edit.isChange : Edit → Bool
  | .keep _ => false
  | .delete _ | .insert _ => true

/-- The number of deletions and insertions. -/
def changeCount (edits : List Edit) : ℕ :=
  edits.countP Edit.isChange

@[simp] theorem changeCount_keep (line : String) (edits : List Edit) :
    changeCount (.keep line :: edits) = changeCount edits := by
  simp [changeCount, Edit.isChange]

@[simp] theorem changeCount_delete (line : String) (edits : List Edit) :
    changeCount (.delete line :: edits) = changeCount edits + 1 :=
  List.countP_cons_of_pos rfl

@[simp] theorem changeCount_insert (line : String) (edits : List Edit) :
    changeCount (.insert line :: edits) = changeCount edits + 1 :=
  List.countP_cons_of_pos rfl

@[simp] theorem changeCount_append (edits more : List Edit) :
    changeCount (edits ++ more) = changeCount edits + changeCount more :=
  List.countP_append

@[simp] theorem changeCount_map_keep (lines : List String) :
    changeCount (lines.map .keep) = 0 := by
  induction lines with
  | nil => rfl
  | cons line lines ih => rw [List.map_cons, changeCount_keep, ih]

theorem Leads.eq_of_changeCount {edits : List Edit} {old new : List String}
    (h : Leads edits old new) (hnone : changeCount edits = 0) : old = new := by
  induction h with
  | nil => rfl
  | keep line _ ih => rw [ih (by simpa using hnone)]
  | delete | insert => simp at hnone

/-! ## Line diffs -/

namespace LineDiff

/-- The script of a line diff leads from the old lines to the new ones, and no script takes fewer
changes. -/
structure Lawful (differ : LineDiff) : Prop where
  leads : ∀ old new, Leads (differ old new) old new
  shortest : ∀ old new edits, Leads edits old new →
    changeCount (differ old new) ≤ changeCount edits

theorem Lawful.changeCount_eq_zero_iff {differ : LineDiff} (h : differ.Lawful)
    (old new : List String) : changeCount (differ old new) = 0 ↔ old = new := by
  refine ⟨(h.leads old new).eq_of_changeCount, ?_⟩
  rintro rfl
  have hkept := h.shortest old old _ (leads_keep old)
  rw [changeCount_map_keep] at hkept
  omega

end LineDiff

/-! ## Shorter lists -/

/-- Some script from `old` to `new` has at most so many changes. -/
def Within (bound : ℕ) (old new : List String) : Prop :=
  ∃ edits, Leads edits old new ∧ changeCount edits ≤ bound

namespace Leads

variable {edits : List Edit} {old new : List String}

/-- Without the first line of the new list, a script needs at most one change more. -/
theorem drop_new {line : String} (h : Leads edits old (line :: new)) :
    Within (changeCount edits + 1) old new := by
  induction edits generalizing old with
  | nil => cases h
  | cons edit edits ih =>
    cases h with
    | keep _ h => exact ⟨_, h.delete line, by simp⟩
    | insert _ h => exact ⟨edits, h, by simp; omega⟩
    | delete other h =>
      obtain ⟨edits', h', hcount⟩ := ih h
      exact ⟨_, h'.delete other, by simp; omega⟩

/-- Without the first line of the old list, a script needs at most one change more. -/
theorem drop_old {line : String} (h : Leads edits (line :: old) new) :
    Within (changeCount edits + 1) old new := by
  induction edits generalizing new with
  | nil => cases h
  | cons edit edits ih =>
    cases h with
    | keep _ h => exact ⟨_, h.insert line, by simp⟩
    | delete _ h => exact ⟨edits, h, by simp; omega⟩
    | insert other h =>
      obtain ⟨edits', h', hcount⟩ := ih h
      exact ⟨_, h'.insert other, by simp; omega⟩

/-- A first line that both lists have can be kept, whatever a script does with it. -/
theorem cut_same {line : String} (h : Leads edits (line :: old) (line :: new)) :
    Within (changeCount edits) old new := by
  cases h with
  | keep _ h => exact ⟨_, h, by simp⟩
  | delete _ h =>
    obtain ⟨edits', h', hcount⟩ := h.drop_new
    exact ⟨edits', h', by simpa using hcount⟩
  | insert _ h =>
    obtain ⟨edits', h', hcount⟩ := h.drop_old
    exact ⟨edits', h', by simpa using hcount⟩

theorem cut_front {front : List String} (h : Leads edits (front ++ old) (front ++ new)) :
    Within (changeCount edits) old new := by
  induction front generalizing edits with
  | nil => exact ⟨edits, h, Nat.le_refl _⟩
  | cons line front ih =>
    obtain ⟨edits', h', hcount⟩ := h.cut_same
    obtain ⟨edits'', h'', hcount'⟩ := ih h'
    exact ⟨edits'', h'', Nat.le_trans hcount' hcount⟩

/-- A script read backwards leads between the lists read backwards. -/
theorem reverse (h : Leads edits old new) : Leads edits.reverse old.reverse new.reverse := by
  induction h with
  | nil => exact .nil
  | keep line _ ih =>
    rw [List.reverse_cons, List.reverse_cons, List.reverse_cons]
    exact ih.append (Leads.nil.keep line)
  | @delete edits old new line _ ih =>
    rw [List.reverse_cons, List.reverse_cons, ← List.append_nil new.reverse]
    exact ih.append (Leads.nil.delete line)
  | @insert edits old new line _ ih =>
    rw [List.reverse_cons, List.reverse_cons, ← List.append_nil old.reverse]
    exact ih.append (Leads.nil.insert line)

theorem cut_back {back : List String} (h : Leads edits (old ++ back) (new ++ back)) :
    Within (changeCount edits) old new := by
  have hreverse := h.reverse
  rw [List.reverse_append, List.reverse_append] at hreverse
  obtain ⟨edits', h', hcount⟩ := hreverse.cut_front
  have hcount' : changeCount edits'.reverse ≤ changeCount edits := by
    simpa [changeCount] using hcount
  exact ⟨edits'.reverse, by simpa using h'.reverse, hcount'⟩

end Leads

/-! ## The table -/

namespace Script

/-- A script with its number of changes, which no other script between the lists is below. -/
structure Shortest (s : Script) (old new : List String) : Prop where
  cost_eq : s.cost = changeCount s.edits
  le : ∀ edits, Leads edits old new → s.cost ≤ changeCount edits

/-- Shortest scripts from `old` to `new` and to each rest of it, in this order. -/
def AllShortest (old new : List String) (scripts : List Script) : Prop :=
  List.Forall₂ (fun (s : Script) rest => s.Shortest old rest) scripts new.tails

theorem AllShortest.head {old new : List String} {s : Script} {rest : List Script}
    (h : AllShortest old new (s :: rest)) : s.Shortest old new :=
  head_of_tails h

theorem AllShortest.tail {old new : List String} {line : String} {s : Script} {rest : List Script}
    (h : AllShortest old (line :: new) (s :: rest)) : AllShortest old new rest :=
  (List.forall₂_cons.1 h).2

theorem Shortest.insert {s : Script} {new : List String} (h : s.Shortest [] new) (line : String) :
    Shortest ⟨s.cost + 1, .insert line :: s.edits⟩ [] (line :: new) := by
  refine ⟨by simp [h.cost_eq], fun edits hedits => ?_⟩
  cases hedits with
  | insert _ hrest =>
    have := h.le _ hrest
    simpa using this

theorem allShortest_insertions (new : List String) : AllShortest [] new (insertions new) := by
  induction new with
  | nil => exact .cons ⟨rfl, fun _ _ => Nat.zero_le _⟩ .nil
  | cons line new ih =>
    obtain ⟨s, rest, hinsertions⟩ := exists_cons_of_tails ih
    unfold insertions
    rw [hinsertions] at ih ⊢
    exact .cons (ih.head.insert line) ih

theorem Shortest.delete {s : Script} {old : List String} (h : s.Shortest old []) (line : String) :
    Shortest ⟨s.cost + 1, .delete line :: s.edits⟩ (line :: old) [] := by
  refine ⟨by simp [h.cost_eq], fun edits hedits => ?_⟩
  cases hedits with
  | delete _ hrest =>
    have := h.le _ hrest
    simpa using this

theorem Shortest.keep {s : Script} {old new : List String} (h : s.Shortest old new)
    (line : String) : Shortest ⟨s.cost, .keep line :: s.edits⟩ (line :: old) (line :: new) := by
  refine ⟨by simp [h.cost_eq], fun edits hedits => ?_⟩
  obtain ⟨edits', hrest, hcount⟩ := hedits.cut_same
  exact Nat.le_trans (h.le _ hrest) hcount

/-- Where the first lines differ, one of them is deleted or inserted first. -/
theorem le_of_ne {skip down : Script} {old new : List String} {line next : String}
    (hskip : skip.Shortest old (next :: new)) (hdown : down.Shortest (line :: old) new)
    (hne : line ≠ next) {bound : ℕ} (hbound : bound ≤ skip.cost ∧ bound ≤ down.cost)
    {edits : List Edit} (h : Leads edits (line :: old) (next :: new)) :
    bound + 1 ≤ changeCount edits := by
  cases h with
  | keep => exact absurd rfl hne
  | delete _ h =>
    have := hskip.le _ h
    rw [changeCount_delete]
    omega
  | insert _ h =>
    have := hdown.le _ h
    rw [changeCount_insert]
    omega

theorem allShortest_extend {old new : List String} {scripts : List Script}
    (h : AllShortest old new scripts) (line : String) :
    AllShortest (line :: old) new (extend line new scripts) := by
  induction new generalizing scripts with
  | nil =>
    obtain ⟨skip, rest, rfl⟩ := exists_cons_of_tails h
    exact .cons (h.head.delete line) .nil
  | cons next new ih =>
    obtain ⟨skip, rest, rfl⟩ := exists_cons_of_tails h
    obtain ⟨diagonal, _, rfl⟩ := exists_cons_of_tails h.tail
    have hdowns := ih h.tail
    obtain ⟨down, downs, hextend⟩ := exists_cons_of_tails hdowns
    rw [hextend] at hdowns
    unfold extend
    rw [hextend]
    refine .cons ?_ hdowns
    split_ifs with hsame hcost
    · subst hsame
      exact h.tail.head.keep line
    · refine ⟨by simp [h.head.cost_eq], fun edits hedits => ?_⟩
      exact le_of_ne h.head hdowns.head hsame ⟨Nat.le_refl _, hcost⟩ hedits
    · refine ⟨by simp [hdowns.head.cost_eq], fun edits hedits => ?_⟩
      exact le_of_ne h.head hdowns.head hsame ⟨by omega, Nat.le_refl _⟩ hedits

theorem allShortest_table (old new : List String) : AllShortest old new (table old new) := by
  induction old with
  | nil => exact allShortest_insertions new
  | cons line old ih => exact allShortest_extend ih line

end Script

theorem coreScript_shortest {old new : List String} {edits : List Edit}
    (h : Leads edits old new) : changeCount (coreScript old new) ≤ changeCount edits := by
  have hall := Script.allShortest_table old new
  obtain ⟨s, rest, htable⟩ := Script.exists_cons_of_tails hall
  rw [htable] at hall
  unfold coreScript
  rw [htable]
  exact hall.head.cost_eq ▸ hall.head.le edits h

/-- No script between the lists has fewer changes. -/
theorem script_shortest {old new : List String} {edits : List Edit} (h : Leads edits old new) :
    changeCount (script old new) ≤ changeCount edits := by
  obtain ⟨front, core, core', back, hold, hnew, hscript⟩ := exists_script_eq old new
  rw [hold, hnew] at h
  obtain ⟨edits', h', hcount'⟩ := h.cut_back
  obtain ⟨edits'', h'', hcount⟩ := h'.cut_front
  calc changeCount (script old new)
      = changeCount (coreScript core core') := by
        rw [hscript, changeCount_append, changeCount_append, changeCount_map_keep,
          changeCount_map_keep, Nat.zero_add, Nat.add_zero]
    _ ≤ changeCount edits'' := coreScript_shortest h''
    _ ≤ changeCount edits' := hcount
    _ ≤ changeCount edits := hcount'

namespace LineDiff

theorem lawful_script : Lawful script :=
  ⟨leads_script, fun _ _ _ => script_shortest⟩

end LineDiff

end HttpStubs.Diff

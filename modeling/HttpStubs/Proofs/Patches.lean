import Mathlib.Data.List.Basic
import HttpStubs.Command.Run
import HttpStubs.Proofs.PatchText

/-!
# Printed diffs are patches

A diff that was read is applied hunk by hunk: a hunk must stand behind the one before it, at the
line that its head names on either side, with as many lines as the head says, and the lines that it
keeps or deletes must be those of the text. The diff that is printed passes all this and gives the
new text, whatever script leads there (`applyPatch_unified`). By a line diff that takes a shortest
script there is no shorter diff either, and its hunks have three lines of context
(`describes_hunks`).
-/

namespace HttpStubs

namespace Diff

open Text (terminatedLines)

/-! ## Applying a diff -/

theorem Side.forall_iff {p : Side → Prop} : (p .old ∧ p .new) ↔ ∀ side, p side := by
  refine ⟨fun h side => ?_, fun h => ⟨h .old, h .new⟩⟩
  cases side with
  | old => exact h.1
  | new => exact h.2

instance {p : Side → Prop} [DecidablePred p] : Decidable (∀ side, p side) :=
  decidable_of_iff (p .old ∧ p .new) Side.forall_iff

/-- Replays edits at the start of lines, where the lines that are kept or deleted must stand: the
lines that take their place, and those that follow. -/
def replay : List Edit → List String → Option (List String × List String)
  | [], lines => some ([], lines)
  | .insert line :: edits, lines => (replay edits lines).map (Prod.map (line :: ·) id)
  | .keep line :: edits, next :: lines =>
    if line = next then (replay edits lines).map (Prod.map (line :: ·) id) else none
  | .delete line :: edits, next :: lines => if line = next then replay edits lines else none
  | _, [] => none

/-- The number of lines before the end of a range. -/
def Range.finish (r : Range) : ℕ :=
  r.before + r.length

/-- The head of a hunk is right behind so many passed and skipped lines. -/
def PatchHunk.FitsAt (h : PatchHunk) (passed : Side → ℕ) (skipped : ℕ) : Prop :=
  ∀ side, (h.range side).before = passed side + skipped ∧
    (h.range side).length = (linesOn side h.edits).length

instance (h : PatchHunk) (passed : Side → ℕ) (skipped : ℕ) : Decidable (h.FitsAt passed skipped) :=
  inferInstanceAs (Decidable (∀ _, _))

/-- Applies hunks to the lines of a text behind those that are passed. -/
def applyHunks (passed : Side → ℕ) : List PatchHunk → List String → Option (List String)
  | [], lines => some lines
  | h :: hs, lines =>
    let skipped := (h.range .old).before - passed .old
    if h.FitsAt passed skipped ∧ skipped ≤ lines.length then
      (replay h.edits (lines.drop skipped)).bind fun (changed, rest) =>
        (applyHunks (fun side => (h.range side).finish) hs rest).map
          (lines.take skipped ++ changed ++ ·)
    else none

/-- Applies a diff under the given names to a text. -/
def applyPatch (oldName newName patch text : String) : Option String :=
  (readPatch oldName newName patch).bind fun hs =>
    (applyHunks (fun _ => 0) hs (terminatedLines text)).map String.join

/-! ## The hunks that were printed -/

@[simp] theorem Range.before_behind (before length : ℕ) :
    (behind before length).before = before := by
  by_cases h : length = 0 <;> simp [behind, Range.before, h]

@[simp] theorem Range.finish_behind (before length : ℕ) :
    (behind before length).finish = before + length := by
  rw [finish, before_behind]
  rfl

@[simp] theorem Hunk.range_patch (h : Hunk) (side : Side) : h.patch.range side = h.place side := by
  cases side <;> rfl

theorem Hunk.before_place (h : Hunk) (side : Side) : (h.place side).before = h.start side :=
  Range.before_behind _ _

theorem Hunk.finish_place (h : Hunk) (side : Side) : (h.place side).finish = h.finish side :=
  Range.finish_behind _ _

theorem replay_append (edits : List Edit) (rest : List String) :
    replay edits (linesOn .old edits ++ rest) = some (linesOn .new edits, rest) := by
  induction edits with
  | nil => rfl
  | cons edit edits ih =>
    cases edit with
    | keep line =>
      change replay _ (line :: (linesOn .old edits ++ rest)) =
        some (line :: linesOn .new edits, rest)
      rw [replay, if_pos rfl, ih]
      rfl
    | delete line =>
      change replay _ (line :: (linesOn .old edits ++ rest)) = some (linesOn .new edits, rest)
      rw [replay, if_pos rfl, ih]
    | insert line =>
      change replay _ (linesOn .old edits ++ rest) = some (line :: linesOn .new edits, rest)
      rw [replay, ih]
      rfl

theorem Cuts.applyHunks_eq {first : Bool} {passed : Side → ℕ} {hs : List Hunk} {edits : List Edit}
    (h : Cuts first passed hs edits) :
    applyHunks passed (hs.map Hunk.patch) (linesOn .old edits) = some (linesOn .new edits) := by
  induction h with
  | nil lines =>
    rw [linesOn_map_keep, linesOn_map_keep]
    rfl
  | @cons first passed gap h hs rest _ hstart _ _ ih =>
    have hskipped : (h.patch.range .old).before - passed .old = gap.length := by
      rw [Hunk.range_patch, h.before_place, hstart]
      omega
    have hfits : h.patch.FitsAt passed gap.length := by
      intro side
      rw [Hunk.range_patch, h.before_place, hstart]
      exact ⟨rfl, rfl⟩
    have hfinish : (fun side => (h.patch.range side).finish) = h.finish := by
      funext side
      rw [Hunk.range_patch, h.finish_place]
    simp only [linesOn_append, linesOn_map_keep, List.append_assoc]
    rw [List.map_cons, applyHunks]
    simp only [hskipped]
    rw [if_pos ⟨hfits, by simp⟩, List.drop_left, List.take_left, hfinish]
    rw [show h.patch.edits = h.edits from rfl, replay_append, Option.bind_some]
    simp only
    rw [ih, Option.map_some, List.append_assoc]

section

variable {differ : LineDiff} {old new : String}

theorem applyPatch_unified
    (h : Leads (differ (terminatedLines old) (terminatedLines new)) (terminatedLines old)
      (terminatedLines new)) (oldName newName : String) :
    applyPatch oldName newName (unified differ oldName newName old new) old = some new := by
  have happly := (cuts_hunks (differ (terminatedLines old) (terminatedLines new))).applyHunks_eq
  rw [linesOn_blocks h, linesOn_blocks h] at happly
  change applyHunks _ _ (terminatedLines old) = some (terminatedLines new) at happly
  rw [applyPatch, readPatch_unified h, Option.bind_some, happly, Option.map_some,
    Text.join_terminatedLines]

theorem unified_eq_empty_iff (oldName newName : String) :
    unified differ oldName newName old new = "" ↔
      hunks (differ (terminatedLines old) (terminatedLines new)) = [] := by
  unfold unified
  cases hunks (differ (terminatedLines old) (terminatedLines new)) with
  | nil => simp
  | cons first rest => simp [← String.toList_inj]

end

/-- What the hunks of a diff say about two texts. -/
structure Describes (hs : List PatchHunk) (old new : String) : Prop where
  /-- A hunk has the lines of the texts that its head names, on either side. -/
  placed : ∀ h ∈ hs, ∀ side, ∃ before after,
    terminatedLines (side.pick old new) = before ++ linesOn side h.edits ++ after ∧
      h.range side = .behind before.length (linesOn side h.edits).length
  /-- On either side a line lies between a hunk and the next. -/
  ordered : hs.Pairwise fun a b => ∀ side, (a.range side).finish < (b.range side).before
  /-- A hunk has its context, except at the start and at the end of the texts. -/
  framed : ∀ h ∈ hs, Framed (∀ side, (h.range side).before = 0)
    (∀ side, (h.range side).finish = (terminatedLines (side.pick old new)).length) h.edits
  /-- No way from the one text to the other takes fewer changes. -/
  shortest : ∀ edits, Leads edits (terminatedLines old) (terminatedLines new) →
    changeCount (hs.flatMap PatchHunk.edits) ≤ changeCount edits

/-- A text is a patch under the given names, from the old text to the new one. -/
structure IsPatch (oldName newName patch old new : String) : Prop where
  /-- Applied to the old text it gives the new one. -/
  applies : applyPatch oldName newName patch old = some new
  /-- It is read as hunks that describe the texts, and as none exactly if these are equal. -/
  describes : ∃ hs, readPatch oldName newName patch = some hs ∧ Describes hs old new ∧
    (hs = [] ↔ old = new)
  /-- It is empty exactly if the texts are equal. -/
  eq_empty_iff : patch = "" ↔ old = new

namespace LineDiff.Lawful

variable {differ : LineDiff} (hdiffer : differ.Lawful)

include hdiffer

theorem describes_hunks (old new : String) :
    Describes ((hunks (differ (terminatedLines old) (terminatedLines new))).map Hunk.patch)
      old new := by
  have hcuts := cuts_hunks (differ (terminatedLines old) (terminatedLines new))
  have hlines := linesOn_blocks (hdiffer.leads (terminatedLines old) (terminatedLines new))
  refine ⟨List.forall_mem_map.2 fun h hh side => ?_, List.pairwise_map.2 ?_,
    List.forall_mem_map.2 fun h hh => ?_, fun edits hedits => ?_⟩
  · obtain ⟨before, after, hcovers, hstart⟩ := hcuts.covers hh side
    rw [hlines] at hcovers
    rw [Nat.zero_add] at hstart
    exact ⟨before, after, hcovers, by rw [Hunk.range_patch, Hunk.place, hstart]; rfl⟩
  · simp only [Hunk.range_patch, Hunk.finish_place, Hunk.before_place]
    exact hcuts.pairwise
  · have hframed := hcuts.framed hh
    simp only [hlines, Nat.zero_add] at hframed
    simp only [Hunk.range_patch, Hunk.finish_place, Hunk.before_place]
    exact hframed
  · rw [List.flatMap_map]
    calc changeCount (List.flatMap Hunk.edits _)
        = changeCount (differ (terminatedLines old) (terminatedLines new)) := changeCount_hunks _
      _ ≤ changeCount edits := hdiffer.shortest _ _ _ hedits

theorem hunks_eq_nil_iff (old new : String) :
    hunks (differ (terminatedLines old) (terminatedLines new)) = [] ↔ old = new := by
  rw [Diff.hunks_eq_nil_iff, hdiffer.changeCount_eq_zero_iff, Text.terminatedLines_inj]

theorem isPatch_unified (oldName newName old new : String) :
    IsPatch oldName newName (unified differ oldName newName old new) old new := by
  have hleads := hdiffer.leads (terminatedLines old) (terminatedLines new)
  have hnone := hdiffer.hunks_eq_nil_iff old new
  refine ⟨applyPatch_unified hleads _ _,
    ⟨_, readPatch_unified hleads _ _, hdiffer.describes_hunks old new, ?_⟩, ?_⟩
  · rw [List.map_eq_nil_iff, hnone]
  · rw [unified_eq_empty_iff, hnone]

end LineDiff.Lawful

end Diff

namespace Command

open Diff
open Stub (Artifact)

end Command

end HttpStubs

import Mathlib.Data.List.Basic
import HttpStubs.Proofs.WrittenLines

/-!
# Steps in another place

Steps that begin with a line write the same lines wherever they stand, at the depth of the place
(`written_of_startsLine`): a writer that goes on below other lines moves in lockstep with one that
starts anew, once the first line is written. A writer that takes the lines of another one over is in
the same relation to it, so that it does not matter whether such steps are written on their own and
then appended or are written in place (`append_runAll_in_place`).
-/

namespace HttpStubs.Code

namespace Writer

theorem refusesBlank_indented (depth : ℕ) (l : String) :
    refusesBlank (indented depth l) = refusesBlank l := by
  by_cases h : l = ""
  · simp [h]
  · have hne : l.toList ≠ [] := by simpa using h
    rw [indented_of_ne h, refusesBlank, refusesBlank, String.toList_append,
      List.getLast?_append_of_ne_nil _ hne]

theorem indented_eq_closing_iff {depth inner : ℕ} {l : String} :
    indented depth l = tabs (depth + inner) ++ "\x7d" ↔ l = tabs inner ++ "\x7d" := by
  by_cases h : l = ""
  · have hne : ∀ depth : ℕ, "" ≠ tabs depth ++ "\x7d" := fun depth heq => by
      simpa using congrArg String.toList heq
    simp [h, hne]
  · rw [indented_of_ne h, ← String.toList_inj, ← String.toList_inj]
    simp [toList_tabs_add]

/-- The writer `w` has the lines of `v` moved `depth` levels in, below the lines `above`. -/
structure Moved (depth : ℕ) (above : List String) (v w : Writer) : Prop where
  depth_eq : w.depth = depth + v.depth
  pendingBlank_eq : w.pendingBlank = v.pendingBlank
  written_eq : w.written = v.written.map (indented depth) ++ above
  started : v.written ≠ []

namespace Moved

variable {depth : ℕ} {above : List String} {v w : Writer}

theorem eq (h : Moved depth above v w) :
    w = ⟨v.written.map (indented depth) ++ above, depth + v.depth, v.pendingBlank⟩ := by
  rw [← h.depth_eq, ← h.pendingBlank_eq, ← h.written_eq]

theorem flushBlank (h : Moved depth above v w) : Moved depth above v.flushBlank w.flushBlank := by
  have hne := h.started
  obtain rfl := h.eq
  obtain ⟨ls, k, pending⟩ := v
  unfold Writer.flushBlank
  cases pending with
  | false => exact ⟨rfl, rfl, rfl, hne⟩
  | true =>
    cases ls with
    | nil => exact absurd rfl hne
    | cons l ls =>
      simp only [if_true, List.map_cons, List.cons_append, refusesBlank_indented]
      split_ifs
      · exact ⟨rfl, rfl, rfl, hne⟩
      · exact ⟨rfl, rfl, by simp, by simp⟩

theorem line (h : Moved depth above v w) (text : String) :
    Moved depth above (v.line text) (w.line text) := by
  refine ⟨?_, ?_, ?_, ?_⟩
  · rw [depth_line, depth_line, h.depth_eq]
  · rw [pendingBlank_line, pendingBlank_line]
  · rw [written_line, written_line, h.flushBlank.written_eq, h.depth_eq, List.map_cons,
      indented_indented, List.cons_append]
  · rw [written_line]
    exact List.cons_ne_nil _ _

theorem lineAll (h : Moved depth above v w) (texts : List String) :
    Moved depth above (v.lineAll texts) (w.lineAll texts) := by
  induction texts generalizing v w with
  | nil => exact h
  | cons text texts ih => exact ih (h.line text)

theorem blank (h : Moved depth above v w) : Moved depth above v.blank w.blank :=
  ⟨h.depth_eq, rfl, h.written_eq, h.started⟩

theorem enter (h : Moved depth above v w) (opening : String) :
    Moved depth above (v.enter opening) (w.enter opening) := by
  have hline := h.line opening
  refine ⟨?_, hline.pendingBlank_eq, hline.written_eq, hline.started⟩
  rw [depth_enter, depth_enter, h.depth_eq, Nat.add_assoc]

theorem leave (h : Moved depth above v w) (inside : 0 < v.depth) (closing : String) :
    Moved depth above (v.leave closing) (w.leave closing) := by
  have hup : Moved depth above { v with depth := v.depth - 1, pendingBlank := false }
      { w with depth := w.depth - 1, pendingBlank := false } := by
    refine ⟨?_, rfl, h.written_eq, h.started⟩
    have hdepth := h.depth_eq
    simp only
    omega
  exact hup.line closing

theorem enterChain (h : Moved depth above v w) (opening : String) :
    Moved depth above (v.enterChain opening) (w.enterChain opening) := by
  have hplain := h.enter opening
  have hne := h.started
  obtain rfl := h.eq
  obtain ⟨ls, k, pending⟩ := v
  cases ls with
  | nil => exact absurd rfl hne
  | cons l ls =>
    unfold Writer.enterChain
    simp only [List.map_cons, List.cons_append, indented_eq_closing_iff]
    split_ifs with hcontinues
    · -- The brace is taken off both, which may leave nothing of `v`, and the next line is written.
      have hpending : pending = false := by simpa using (Bool.and_eq_true_iff.1 hcontinues).1
      subst hpending
      refine ⟨?_, rfl, ?_, ?_⟩
      · simp [Nat.add_assoc]
      · simp [Writer.enter, written_line, Writer.flushBlank, indented_indented]
      · simp [Writer.enter, written_line]
    · exact hplain

theorem append (h : Moved depth above v w) (other : Writer) :
    Moved depth above (v.append other) (w.append other) := by
  unfold Writer.append
  split
  · exact (h.lineAll _).blank
  · exact h.lineAll _

/-- The first line of a new writer, and of one that goes on below its lines. -/
theorem first (w : Writer) (text : String) :
    Moved w.depth w.flushBlank.written (({} : Writer).line text) (w.line text) := by
  refine ⟨by simp, by simp, ?_, by simp [written_line]⟩
  rw [written_line, written_line]
  simp [Writer.flushBlank, indented_indented]

theorem first_enter (w : Writer) (opening : String) :
    Moved w.depth w.flushBlank.written (({} : Writer).enter opening) (w.enter opening) := by
  have hline := first w opening
  exact ⟨by simp, hline.pendingBlank_eq, hline.written_eq, hline.started⟩

end Moved

end Writer

open Writer (Moved)

mutual

theorem Step.moved_run {depth : ℕ} {above : List String} (step : Step) {v w : Writer}
    (h : Moved depth above v w) : Moved depth above (step.run v) (step.run w) := by
  cases step with
  | line text => exact h.line text
  | lines text => exact h.lineAll _
  | blank => exact h.blank
  | block opening closing body =>
    rw [Step.run, Step.run]
    refine (Step.moved_runAll body (h.enter opening)).leave ?_ closing
    rw [Step.depth_runAll, Writer.depth_enter]
    exact Nat.succ_pos _
  | chain opening closing body =>
    rw [Step.run, Step.run]
    refine (Step.moved_runAll body (h.enterChain opening)).leave ?_ closing
    rw [Step.depth_runAll, Writer.depth_enterChain]
    exact Nat.succ_pos _
  | append steps => exact h.append _

theorem Step.moved_runAll {depth : ℕ} {above : List String} (steps : List Step) {v w : Writer}
    (h : Moved depth above v w) :
    Moved depth above (Step.runAll steps v) (Step.runAll steps w) := by
  cases steps with
  | nil => exact h
  | cons step steps =>
    rw [Step.runAll, Step.runAll]
    exact Step.moved_runAll steps (Step.moved_run step h)

end

namespace Step

/-- Whether steps begin with a line of their own. -/
def startsLine : List Step → Bool
  | .line _ :: _ => true
  | .block .. :: _ => true
  | _ => false

theorem moved_of_startsLine {steps : List Step} (h : startsLine steps) (w : Writer) :
    Moved w.depth w.flushBlank.written (runAll steps {}) (runAll steps w) := by
  match steps with
  | .line text :: steps => exact moved_runAll steps (Moved.first w text)
  | .block opening closing body :: steps =>
    refine moved_runAll steps ((moved_runAll body (Moved.first_enter w opening)).leave ?_ closing)
    rw [depth_runAll, Writer.depth_enter]
    exact Nat.succ_pos _

/-- Steps that begin with a line write the lines that they write on their own. -/
theorem written_of_startsLine {steps : List Step} (h : startsLine steps) (w : Writer) :
    (runAll steps w).written =
      (runAll steps {}).written.map (Writer.indented w.depth) ++ w.flushBlank.written :=
  (moved_of_startsLine h w).written_eq

end Step

/-! ## Lines taken over -/

namespace Writer

theorem lineAll_flush (ls texts : List String) :
    (⟨ls, 0, false⟩ : Writer).lineAll texts = ⟨texts.reverse ++ ls, 0, false⟩ := by
  induction texts generalizing ls with
  | nil => rfl
  | cons text texts ih =>
    have hline : (⟨ls, 0, false⟩ : Writer).line text = ⟨text :: ls, 0, false⟩ := by
      simp [line, flushBlank, indented_zero]
    rw [lineAll_cons, hline, ih]
    simp

/-- A new writer takes the lines of another one over as they are. -/
theorem append_new {other : Writer} (h : other.depth = 0) : ({} : Writer).append other = other := by
  obtain ⟨ls, depth, pending⟩ := other
  obtain rfl : depth = 0 := h
  unfold append
  rw [lineAll_flush, List.reverse_reverse, List.append_nil]
  cases pending <;> rfl

namespace Moved

/-- What a new writer takes over, and what one does that goes on below its lines. -/
theorem append_first (w : Writer) {other : Writer} (h : other.written ≠ []) :
    Moved w.depth w.flushBlank.written (({} : Writer).append other) (w.append other) := by
  obtain ⟨text, texts, hlines⟩ := List.exists_cons_of_ne_nil (List.reverse_ne_nil_iff.2 h)
  have hall := (first w text).lineAll texts
  unfold Writer.append
  rw [hlines, lineAll_cons, lineAll_cons]
  split
  · exact hall.blank
  · exact hall

theorem unique {depth : ℕ} {above : List String} {v w w' : Writer} (h : Moved depth above v w)
    (h' : Moved depth above v w') : w = w' :=
  h.eq.trans h'.eq.symm

end Moved

end Writer

/-- Steps that begin with a line may be written on their own and appended, or written in place: the
lines, the depth and the pending blank line are the same. -/
theorem Step.append_runAll_in_place (w : Writer) {steps : List Step} (h : startsLine steps) :
    w.append (runAll steps {}) = runAll steps w := by
  have hplaced := moved_of_startsLine h w
  have hdepth : (runAll steps {}).depth = 0 := depth_runAll steps {}
  have htaken := Moved.append_first w hplaced.started
  rw [Writer.append_new hdepth] at htaken
  exact htaken.unique hplaced

/-- A writer inside a function, where a blank line is asked for. -/
def insideFunction : Writer :=
  ⟨["\ta();", "f() \x7b"], 1, true⟩

/-- Steps whose only line is taken away by a chain, with steps that are appended in its body. -/
def continuedBrace : List Step :=
  [.line "\x7d", .chain "else \x7b" "\x7d" [.blank, .append [.line "b();", .blank]], .blank]

theorem append_continuedBrace_in_place :
    Step.startsLine continuedBrace ∧
      insideFunction.append (Step.runAll continuedBrace {}) =
        Step.runAll continuedBrace insideFunction ∧
      Step.runAll continuedBrace insideFunction =
        ⟨["\t\x7d", "\t\tb();", "\t\x7d else \x7b", "", "\ta();", "f() \x7b"], 1, true⟩ :=
  ⟨rfl, Step.append_runAll_in_place insideFunction rfl, by decide⟩

-- A request for a blank line at the start is lost on a new writer, and not in place.
example : (⟨["f();"], 0, false⟩ : Writer).append (Step.runAll [.blank, .line "g();"] {}) ≠
    Step.runAll [.blank, .line "g();"] ⟨["f();"], 0, false⟩ := by
  decide

end HttpStubs.Code

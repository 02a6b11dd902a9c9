import Mathlib.Data.List.Basic
import HttpStubs.Code.Writer

/-!
# What the line writer writes

Two descriptions of the lines that a run of steps leaves behind. By character: apart from what the
writer adds itself (tabs, and the brace that a chain continues), the lines hold the characters of
the steps' texts and no others (`holds_runAll`). By depth: each new line is empty, or one of the
texts at the writer's own depth, or indented deeper (`mem_written_runAll`).
-/

namespace HttpStubs.Code

/-! ## Single lines -/

namespace Writer

@[simp] theorem depth_flushBlank (w : Writer) : w.flushBlank.depth = w.depth := by
  unfold flushBlank
  split
  · split
    · rfl
    · split <;> rfl
  · rfl

@[simp] theorem pendingBlank_flushBlank (w : Writer) : w.flushBlank.pendingBlank = false := by
  unfold flushBlank
  split
  · split
    · rfl
    · split <;> rfl
  next h => simpa using h

theorem written_flushBlank (w : Writer) :
    w.flushBlank.written = w.written ∨ w.flushBlank.written = "" :: w.written := by
  unfold flushBlank
  split
  · split
    · exact .inl rfl
    next last rest h =>
      split
      · exact .inl rfl
      · exact .inr (by rw [h])
  · exact .inl rfl

@[simp] theorem depth_line (w : Writer) (text : String) : (w.line text).depth = w.depth := by
  simp [line]

@[simp] theorem pendingBlank_line (w : Writer) (text : String) :
    (w.line text).pendingBlank = false := by
  simp [line]

theorem written_line (w : Writer) (text : String) :
    (w.line text).written = indented w.depth text :: w.flushBlank.written := by
  simp [line]

theorem suffix_line (w : Writer) (text : String) : w.written <:+ (w.line text).written := by
  rw [written_line]
  rcases written_flushBlank w with h | h <;> rw [h]
  · exact List.suffix_cons _ _
  · exact (List.suffix_cons _ _).trans (List.suffix_cons _ _)

theorem suffix_leave (w : Writer) (closing : String) :
    w.written <:+ (w.leave closing).written :=
  suffix_line { w with depth := w.depth - 1, pendingBlank := false } closing

@[simp] theorem depth_blank (w : Writer) : w.blank.depth = w.depth :=
  rfl

@[simp] theorem lineAll_nil (w : Writer) : w.lineAll [] = w :=
  rfl

@[simp] theorem lineAll_cons (w : Writer) (text : String) (texts : List String) :
    w.lineAll (text :: texts) = (w.line text).lineAll texts :=
  rfl

@[simp] theorem depth_lineAll (w : Writer) (texts : List String) :
    (w.lineAll texts).depth = w.depth := by
  induction texts generalizing w with
  | nil => rfl
  | cons text texts ih => rw [lineAll_cons, ih, depth_line]

@[simp] theorem depth_enter (w : Writer) (opening : String) :
    (w.enter opening).depth = w.depth + 1 := by
  simp [enter]

@[simp] theorem depth_leave (w : Writer) (closing : String) :
    (w.leave closing).depth = w.depth - 1 := by
  simp [leave]

@[simp] theorem depth_enterChain (w : Writer) (opening : String) :
    (w.enterChain opening).depth = w.depth + 1 := by
  unfold enterChain
  split
  · split <;> simp
  · simp

theorem written_append (w other : Writer) :
    (w.append other).written = (w.lineAll other.written.reverse).written := by
  unfold append
  split <;> rfl

@[simp] theorem depth_append (w other : Writer) : (w.append other).depth = w.depth := by
  unfold append
  split <;> simp

end Writer

mutual

theorem Step.depth_run (step : Step) (w : Writer) : (step.run w).depth = w.depth := by
  cases step with
  | line text => exact w.depth_line text
  | lines text => exact w.depth_lineAll (Text.lines text)
  | blank => rfl
  | block opening closing body =>
    rw [Step.run, Writer.depth_leave, Step.depth_runAll body, Writer.depth_enter,
      Nat.add_sub_cancel]
  | chain opening closing body =>
    rw [Step.run, Writer.depth_leave, Step.depth_runAll body, Writer.depth_enterChain,
      Nat.add_sub_cancel]
  | append steps => exact w.depth_append _

theorem Step.depth_runAll (steps : List Step) (w : Writer) :
    (Step.runAll steps w).depth = w.depth := by
  cases steps with
  | nil => rfl
  | cons step steps => rw [Step.runAll, Step.depth_runAll steps, Step.depth_run step]

end

theorem Step.runAll_append (steps more : List Step) (w : Writer) :
    Step.runAll (steps ++ more) w = Step.runAll more (Step.runAll steps w) := by
  induction steps generalizing w with
  | nil => rfl
  | cons step steps ih => exact ih (step.run w)

/-! ## The characters of the lines -/

mutual

/-- The texts that a step hands to the writer. -/
def Step.texts : Step → List String
  | .line text => [text]
  | .lines text => Text.lines text
  | .blank => []
  | .block opening closing body => opening :: Step.textsAll body ++ [closing]
  | .chain opening closing body => opening :: Step.textsAll body ++ [closing]
  | .append steps => Step.textsAll steps

/-- The texts that some steps hand to the writer. -/
def Step.textsAll : List Step → List String
  | [] => []
  | step :: steps => step.texts ++ Step.textsAll steps

end

namespace Step

theorem textsAll_eq_flatMap (steps : List Step) : textsAll steps = steps.flatMap texts := by
  induction steps with
  | nil => rfl
  | cons step steps ih => rw [textsAll, ih, List.flatMap_cons]

@[simp] theorem textsAll_nil : textsAll [] = [] :=
  rfl

@[simp] theorem textsAll_cons (step : Step) (steps : List Step) :
    textsAll (step :: steps) = step.texts ++ textsAll steps :=
  rfl

@[simp] theorem textsAll_append (steps more : List Step) :
    textsAll (steps ++ more) = textsAll steps ++ textsAll more := by
  simp [textsAll_eq_flatMap]

@[simp] theorem textsAll_flatMap {α : Type} (xs : List α) (f : α → List Step) :
    textsAll (xs.flatMap f) = xs.flatMap fun x => textsAll (f x) := by
  simp [textsAll_eq_flatMap, List.flatMap_assoc]

@[simp] theorem textsAll_map {α : Type} (xs : List α) (f : α → Step) :
    textsAll (xs.map f) = xs.flatMap fun x => (f x).texts := by
  simp [textsAll_eq_flatMap, List.flatMap_map]

end Step

/-- Some line holds the character. -/
def Holds (c : Char) (lines : List String) : Prop :=
  ∃ l ∈ lines, c ∈ l.toList

section

variable {c : Char}

@[simp] theorem holds_nil : ¬Holds c [] := by
  simp [Holds]

@[simp] theorem holds_cons {l : String} {lines : List String} :
    Holds c (l :: lines) ↔ c ∈ l.toList ∨ Holds c lines := by
  simp [Holds]

@[simp] theorem holds_append {lines more : List String} :
    Holds c (lines ++ more) ↔ Holds c lines ∨ Holds c more := by
  simp [Holds, or_and_right, exists_or]

@[simp] theorem holds_reverse {lines : List String} : Holds c lines.reverse ↔ Holds c lines := by
  simp [Holds]

@[simp] theorem holds_flatMap {α : Type} {xs : List α} {f : α → List String} :
    Holds c (xs.flatMap f) ↔ ∃ x ∈ xs, Holds c (f x) := by
  simp only [Holds, List.mem_flatMap]
  constructor
  · rintro ⟨l, ⟨x, hx, hl⟩, hc⟩
    exact ⟨x, hx, l, hl, hc⟩
  · rintro ⟨x, hx, l, hl, hc⟩
    exact ⟨l, ⟨x, hx, hl⟩, hc⟩

theorem holds_map {α : Type} {xs : List α} {f : α → String} :
    Holds c (xs.map f) ↔ ∃ x ∈ xs, c ∈ (f x).toList := by
  simp [Holds]

/-- The writer does not add the character by itself. -/
def IsForeign (c : Char) : Prop :=
  c ≠ '\t' ∧ c ≠ '\x7d' ∧ c ≠ ' '

variable (foreign : IsForeign c)

namespace Writer

include foreign

theorem not_mem_tabs (depth : ℕ) : c ∉ (tabs depth).toList := by
  simp [tabs, foreign.1]

theorem mem_indented {depth : ℕ} {text : String} :
    c ∈ (indented depth text).toList ↔ c ∈ text.toList := by
  unfold indented
  split_ifs with h
  · rw [h]
  · simp [not_mem_tabs foreign]

omit foreign in
theorem holds_flushBlank (w : Writer) : Holds c w.flushBlank.written ↔ Holds c w.written := by
  rcases written_flushBlank w with h | h <;> simp [h]

theorem holds_line {w : Writer} {text : String} :
    Holds c (w.line text).written ↔ Holds c w.written ∨ c ∈ text.toList := by
  rw [written_line, holds_cons, mem_indented foreign, holds_flushBlank, or_comm]

theorem holds_lineAll {w : Writer} {texts : List String} :
    Holds c (w.lineAll texts).written ↔ Holds c w.written ∨ Holds c texts := by
  induction texts generalizing w with
  | nil => simp
  | cons text texts ih => rw [lineAll_cons, ih, holds_line foreign, holds_cons, or_assoc]

theorem holds_enter {w : Writer} {opening : String} :
    Holds c (w.enter opening).written ↔ Holds c w.written ∨ c ∈ opening.toList :=
  holds_line foreign

theorem holds_leave {w : Writer} {closing : String} :
    Holds c (w.leave closing).written ↔ Holds c w.written ∨ c ∈ closing.toList :=
  holds_line foreign

theorem holds_enterChain {w : Writer} {opening : String} :
    Holds c (w.enterChain opening).written ↔ Holds c w.written ∨ c ∈ opening.toList := by
  unfold enterChain
  split
  next last rest hwritten =>
    split_ifs with h
    · -- The line that is continued holds tabs and a brace only.
      have hlast : c ∉ last.toList := by
        have hlast : last = tabs w.depth ++ "\x7d" := by simp_all
        simp [hlast, not_mem_tabs foreign, foreign.2.1]
      rw [holds_enter foreign, hwritten]
      simp [hlast, foreign.2.1, foreign.2.2]
    · exact holds_enter foreign
  next => exact holds_enter foreign

theorem holds_append {w other : Writer} :
    Holds c (w.append other).written ↔ Holds c w.written ∨ Holds c other.written := by
  rw [written_append, holds_lineAll foreign, holds_reverse]

end Writer

mutual

theorem Step.holds_run (foreign : IsForeign c) (step : Step) (w : Writer) :
    Holds c (step.run w).written ↔ Holds c w.written ∨ Holds c step.texts := by
  cases step with
  | line text =>
    rw [Step.run, Writer.holds_line foreign, Step.texts]
    simp
  | lines text => exact Writer.holds_lineAll foreign
  | blank => simp [Step.run, Step.texts, Writer.blank]
  | block opening closing body =>
    rw [Step.run, Writer.holds_leave foreign, Step.holds_runAll foreign body,
      Writer.holds_enter foreign, Step.texts]
    simp [or_assoc]
  | chain opening closing body =>
    rw [Step.run, Writer.holds_leave foreign, Step.holds_runAll foreign body,
      Writer.holds_enterChain foreign, Step.texts]
    simp [or_assoc]
  | append steps =>
    rw [Step.run, Writer.holds_append foreign, Step.holds_runAll foreign steps, Step.texts]
    simp

/-- A run adds the characters of its texts, and loses none. -/
theorem Step.holds_runAll (foreign : IsForeign c) (steps : List Step) (w : Writer) :
    Holds c (Step.runAll steps w).written ↔ Holds c w.written ∨ Holds c (Step.textsAll steps) := by
  cases steps with
  | nil => simp [Step.runAll, Step.textsAll]
  | cons step steps =>
    rw [Step.runAll, Step.holds_runAll foreign steps, Step.holds_run foreign step, Step.textsAll,
      HttpStubs.Code.holds_append, or_assoc]

end

end

/-! ## The depth of the lines -/

mutual

/-- The texts that a step writes at the depth of the writer; a chain may put its opening behind a
closing brace. -/
def Step.outer : Step → List String
  | .line text => [text]
  | .lines text => Text.lines text
  | .blank => []
  | .block opening closing _ => [opening, closing]
  | .chain opening closing _ => [opening, "\x7d " ++ opening, closing]
  | .append steps => Step.outerAll steps

/-- The texts that some steps write at the depth of the writer. -/
def Step.outerAll : List Step → List String
  | [] => []
  | step :: steps => step.outer ++ Step.outerAll steps

end

namespace Step

theorem outerAll_eq_flatMap (steps : List Step) : outerAll steps = steps.flatMap outer := by
  induction steps with
  | nil => rfl
  | cons step steps ih => rw [outerAll, ih, List.flatMap_cons]

@[simp] theorem outerAll_nil : outerAll [] = [] :=
  rfl

@[simp] theorem outerAll_cons (step : Step) (steps : List Step) :
    outerAll (step :: steps) = step.outer ++ outerAll steps :=
  rfl

@[simp] theorem outerAll_append (steps more : List Step) :
    outerAll (steps ++ more) = outerAll steps ++ outerAll more := by
  simp [outerAll_eq_flatMap]

@[simp] theorem outerAll_flatMap {α : Type} (xs : List α) (f : α → List Step) :
    outerAll (xs.flatMap f) = xs.flatMap fun x => outerAll (f x) := by
  simp [outerAll_eq_flatMap, List.flatMap_assoc]

end Step

/-- A line that a writer at `depth` may add for `texts`: empty, one of the texts, or deeper. -/
def IsAdded (depth : ℕ) (texts : List String) (l : String) : Prop :=
  l = "" ∨ (∃ t ∈ texts, l = Writer.indented depth t) ∨
    (Writer.tabs (depth + 1)).toList <+: l.toList

theorem IsAdded.mono {depth : ℕ} {texts more : List String} {l : String} (h : IsAdded depth texts l)
    (sub : ∀ t ∈ texts, t ∈ more) : IsAdded depth more l := by
  rcases h with h | ⟨t, ht, h⟩ | h
  · exact .inl h
  · exact .inr (.inl ⟨t, sub t ht, h⟩)
  · exact .inr (.inr h)

namespace Writer

theorem toList_tabs_add (a b : ℕ) : (tabs (a + b)).toList = (tabs a).toList ++ (tabs b).toList := by
  simp [tabs, List.replicate_append_replicate]

@[simp] theorem indented_empty (depth : ℕ) : indented depth "" = "" :=
  if_pos rfl

theorem indented_of_ne {depth : ℕ} {text : String} (h : text ≠ "") :
    indented depth text = tabs depth ++ text :=
  if_neg h

@[simp] theorem indented_eq_empty_iff {depth : ℕ} {text : String} :
    indented depth text = "" ↔ text = "" := by
  by_cases h : text = ""
  · simp [h]
  · rw [indented_of_ne h]
    simp [h]

theorem indented_zero (text : String) : indented 0 text = text := by
  by_cases h : text = ""
  · simp [h]
  · have hzero : tabs 0 = "" := rfl
    rw [indented_of_ne h, hzero, String.empty_append]

theorem indented_indented (depth inner : ℕ) (text : String) :
    indented depth (indented inner text) = indented (depth + inner) text := by
  by_cases h : text = ""
  · simp [h]
  · have hne : tabs inner ++ text ≠ "" := by simp [h]
    rw [indented_of_ne h, indented_of_ne h, indented_of_ne hne, ← String.toList_inj]
    simp [toList_tabs_add]

/-- A line of a deeper writer is deeper. -/
theorem isAdded_of_deeper {depth : ℕ} {texts more : List String} {l : String}
    (h : IsAdded (depth + 1) texts l) : IsAdded depth more l := by
  rcases h with h | ⟨t, -, rfl⟩ | h
  · exact .inl h
  · by_cases ht : t = ""
    · exact .inl (by simp [ht])
    · refine .inr (.inr ?_)
      rw [indented_of_ne ht, String.toList_append]
      exact List.prefix_append _ _
  · refine .inr (.inr (List.IsPrefix.trans ?_ h))
    rw [toList_tabs_add (depth + 1) 1]
    exact List.prefix_append _ _

/-- A line of a detached writer, written at the depth of another. -/
theorem isAdded_indented {depth : ℕ} {texts : List String} {l : String} (h : IsAdded 0 texts l) :
    IsAdded depth texts (indented depth l) := by
  rcases h with rfl | ⟨t, ht, rfl⟩ | h
  · exact .inl (indented_empty depth)
  · exact .inr (.inl ⟨t, ht, by rw [indented_zero]⟩)
  · by_cases hl : l = ""
    · exact .inl (by simp [hl])
    · refine .inr (.inr ?_)
      rw [indented_of_ne hl, toList_tabs_add, String.toList_append]
      exact (List.prefix_append_right_inj _).2 h

theorem mem_line {w : Writer} {text l : String} (h : l ∈ (w.line text).written) :
    l ∈ w.written ∨ IsAdded w.depth [text] l := by
  rw [written_line, List.mem_cons] at h
  rcases h with rfl | h
  · exact .inr (.inr (.inl ⟨text, by simp, rfl⟩))
  · rcases written_flushBlank w with heq | heq <;> rw [heq] at h
    · exact .inl h
    · rcases List.mem_cons.1 h with rfl | h
      · exact .inr (.inl rfl)
      · exact .inl h

theorem mem_lineAll {w : Writer} {texts : List String} {l : String}
    (h : l ∈ (w.lineAll texts).written) : l ∈ w.written ∨ IsAdded w.depth texts l := by
  induction texts generalizing w with
  | nil => exact .inl h
  | cons text texts ih =>
    rw [lineAll_cons] at h
    rcases ih h with h | h
    · rcases mem_line h with h | h
      · exact .inl h
      · exact .inr (h.mono (by simp))
    · rw [depth_line] at h
      exact .inr (h.mono (by simp_all))

theorem mem_enterChain {w : Writer} {opening l : String} (h : l ∈ (w.enterChain opening).written) :
    l ∈ w.written ∨ IsAdded w.depth [opening, "\x7d " ++ opening] l := by
  have hplain : l ∈ (w.line opening).written →
      l ∈ w.written ∨ IsAdded w.depth [opening, "\x7d " ++ opening] l := fun h =>
    (mem_line h).imp_right fun h => h.mono (by simp)
  unfold enterChain at h
  split at h
  next last rest hwritten =>
    split_ifs at h
    · rcases mem_line h with h | h
      · exact .inl (by rw [hwritten]; exact List.mem_cons_of_mem last h)
      · exact .inr (h.mono (by simp))
    · exact hplain h
  next => exact hplain h

theorem mem_append {w other : Writer} {texts : List String} {l : String}
    (added : ∀ l' ∈ other.written, IsAdded 0 texts l') (h : l ∈ (w.append other).written) :
    l ∈ w.written ∨ IsAdded w.depth texts l := by
  rw [written_append] at h
  rcases mem_lineAll h with h | h | ⟨t, ht, rfl⟩ | h
  · exact .inl h
  · exact .inr (.inl h)
  · exact .inr (isAdded_indented (added t (List.mem_reverse.1 ht)))
  · exact .inr (.inr (.inr h))

end Writer

mutual

theorem Step.mem_written_run (step : Step) {w : Writer} {l : String}
    (h : l ∈ (step.run w).written) : l ∈ w.written ∨ IsAdded w.depth step.outer l := by
  cases step with
  | line text => exact Writer.mem_line h
  | lines text => exact Writer.mem_lineAll h
  | blank => exact .inl h
  | block opening closing body =>
    rw [Step.run] at h
    rcases Writer.mem_line h with h | h
    · rcases Step.mem_written_runAll body h with h | h
      · exact (Writer.mem_line h).imp_right fun h => h.mono (by simp [Step.outer])
      · rw [Writer.depth_enter] at h
        exact .inr (Writer.isAdded_of_deeper h)
    · rw [Step.depth_runAll, Writer.depth_enter] at h
      exact .inr (h.mono (by simp [Step.outer]))
  | chain opening closing body =>
    rw [Step.run] at h
    rcases Writer.mem_line h with h | h
    · rcases Step.mem_written_runAll body h with h | h
      · exact (Writer.mem_enterChain h).imp_right fun h => h.mono (by simp [Step.outer])
      · rw [Writer.depth_enterChain] at h
        exact .inr (Writer.isAdded_of_deeper h)
    · rw [Step.depth_runAll, Writer.depth_enterChain] at h
      exact .inr (h.mono (by simp [Step.outer]))
  | append steps =>
    refine Writer.mem_append (fun l' hl' => ?_) h
    rcases Step.mem_written_runAll steps hl' with hl' | hl'
    · cases hl'
    · exact hl'

/-- A new line is empty, a text at the depth of the writer, or deeper. -/
theorem Step.mem_written_runAll (steps : List Step) {w : Writer} {l : String}
    (h : l ∈ (Step.runAll steps w).written) :
    l ∈ w.written ∨ IsAdded w.depth (Step.outerAll steps) l := by
  cases steps with
  | nil => exact .inl h
  | cons step steps =>
    rcases Step.mem_written_runAll steps h with h | h
    · exact (Step.mem_written_run step h).imp_right fun h => h.mono (by simp_all [Step.outerAll])
    · rw [Step.depth_run] at h
      exact .inr (h.mono (by simp_all [Step.outerAll]))

end

end HttpStubs.Code

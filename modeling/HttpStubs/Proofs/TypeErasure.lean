import Mathlib.Data.List.Basic
import HttpStubs.Code.Dialect
import HttpStubs.Proofs.WrittenLines

/-!
# Erasing types

`LinesErase fs ls ls'` says that `ls'` are the lines `ls` at the same depths with the type fragments
`fs` deleted, each where it stands and nothing else. Steps that differ in such fragments only write
lines that differ in them only (`StepsErase`): two writers that agree so far go on in lockstep, as a
deleted fragment changes neither whether a blank line is allowed below a line nor whether a chain
continues it.
-/

namespace HttpStubs.Code

/-- A piece of code that says something about types only. -/
inductive TypeFragment where
  | visibility
  | optional
  | nonNull
  | ascription (type : String)
  | cast (type : String)
  deriving DecidableEq, Repr

/-- How a fragment is written. -/
def TypeFragment.text : TypeFragment → String
  | .visibility => "public "
  | .optional => "?"
  | .nonNull => "!"
  | .ascription type => ": " ++ type
  | .cast type => " as " ++ type

/-! ## Texts -/

/-- The second characters are the first without the fragments, which stand there in this order. -/
inductive CharsErase : List TypeFragment → List Char → List Char → Prop
  | nil : CharsErase [] [] []
  | keep {fs : List TypeFragment} {cs ds : List Char} (c : Char) :
    CharsErase fs cs ds → CharsErase fs (c :: cs) (c :: ds)
  | drop {fs : List TypeFragment} {cs ds : List Char} (f : TypeFragment) :
    CharsErase fs cs ds → CharsErase (f :: fs) (f.text.toList ++ cs) ds

/-- The text `b` is `a` without the fragments. -/
def Erases (fs : List TypeFragment) (a b : String) : Prop :=
  CharsErase fs a.toList b.toList

theorem CharsErase.append {fs gs : List TypeFragment} {cs ds cs' ds' : List Char}
    (h : CharsErase fs cs ds) (h' : CharsErase gs cs' ds') :
    CharsErase (fs ++ gs) (cs ++ cs') (ds ++ ds') := by
  induction h with
  | nil => exact h'
  | keep c _ ih => exact ih.keep c
  | drop f _ ih =>
    rw [List.append_assoc]
    exact ih.drop f

namespace Erases

theorem refl (a : String) : Erases [] a a := by
  unfold Erases
  induction a.toList with
  | nil => exact .nil
  | cons c cs ih => exact ih.keep c

theorem append {fs gs : List TypeFragment} {a b c d : String} (h : Erases fs a b)
    (h' : Erases gs c d) : Erases (fs ++ gs) (a ++ c) (b ++ d) := by
  unfold Erases at *
  rw [String.toList_append, String.toList_append]
  exact CharsErase.append h h'

theorem followed {fs : List TypeFragment} {a b : String} (h : Erases fs a b) (c : String) :
    Erases fs (a ++ c) (b ++ c) := by
  simpa using h.append (refl c)

theorem preceded (a : String) {fs : List TypeFragment} {b c : String} (h : Erases fs b c) :
    Erases fs (a ++ b) (a ++ c) :=
  (refl a).append h

/-- What only the typed dialect has is deleted. -/
theorem onlyTyped (fs : List TypeFragment) {text : String}
    (h : String.join (fs.map TypeFragment.text) = text) :
    Erases fs (Dialect.typeScript.onlyTyped text) (Dialect.javaScript.onlyTyped text) := by
  subst h
  change CharsErase fs (String.join (fs.map TypeFragment.text)).toList []
  induction fs with
  | nil => exact .nil
  | cons f fs ih =>
    rw [List.map_cons, String.join_cons, String.toList_append]
    exact ih.drop f

end Erases

/-- Whether a text starts with something other than a tab. -/
def startsPlain (text : String) : Bool :=
  text.toList.head?.any (· ≠ '\t')

theorem startsPlain_append {a : String} (h : startsPlain a) (b : String) :
    startsPlain (a ++ b) := by
  unfold startsPlain at *
  rw [String.toList_append]
  cases ha : a.toList with
  | nil => simp [ha] at h
  | cons c cs => simpa [ha] using h

/-- Texts of lines that differ in fragments only. The end of a line stays, and no such line is a
closing brace; the first text starts with its own characters, not with more indentation. -/
inductive TextErases : List TypeFragment → String → String → Prop
  | same (text : String) : TextErases [] text text
  | erased {fs : List TypeFragment} {a b : String} {c : Char} (erases : Erases fs a b)
    (start : startsPlain a) (last : a.toList.getLast? = some c)
    (last' : b.toList.getLast? = some c) (unclosed : c ≠ '\x7d') : TextErases fs a b

/-- Whether a text ends in something other than a closing brace. -/
def endsOpen (text : String) : Bool :=
  text.toList.getLast?.any (· ≠ '\x7d')

/-- A text that differs in fragments only, up to an end that the two share. -/
theorem TextErases.of_end {fs : List TypeFragment} {a b tail : String} (h : Erases fs a b)
    (start : startsPlain a) (ends : endsOpen tail) : TextErases fs (a ++ tail) (b ++ tail) := by
  have hlast : ∀ (text : String) {c : Char}, tail.toList.getLast? = some c →
      (text ++ tail).toList.getLast? = some c := by
    intro text c last
    rw [String.toList_append, List.getLast?_append, last, Option.some_or]
  cases last : tail.toList.getLast? with
  | none => simp [endsOpen, last] at ends
  | some c =>
    have unclosed : c ≠ '\x7d' := by simpa [endsOpen, last] using ends
    exact .erased (h.followed tail) (startsPlain_append start tail) (hlast a last) (hlast b last)
      unclosed

/-- A text with one place that only the typed dialect fills. -/
theorem TextErases.typed (fs : List TypeFragment) {text front tail : String}
    (h : String.join (fs.map TypeFragment.text) = text) (start : startsPlain front)
    (ends : endsOpen tail) :
    TextErases fs (front ++ Dialect.typeScript.onlyTyped text ++ tail)
      (front ++ Dialect.javaScript.onlyTyped text ++ tail) :=
  .of_end ((Erases.onlyTyped fs h).preceded front) (startsPlain_append start _) ends

/-! ## Lines -/

/-- Lines at one depth whose texts differ in fragments only. -/
def LineErases (fs : List TypeFragment) (l l' : String) : Prop :=
  ∃ depth a b, TextErases fs a b ∧ l = Writer.indented depth a ∧ l' = Writer.indented depth b

/-- Lines that differ in fragments only, line by line. -/
inductive LinesErase : List TypeFragment → List String → List String → Prop
  | nil : LinesErase [] [] []
  | cons {fs gs : List TypeFragment} {l l' : String} {ls ls' : List String} :
    LineErases fs l l' → LinesErase gs ls ls' → LinesErase (fs ++ gs) (l :: ls) (l' :: ls')

theorem LinesErase.concat {fs gs : List TypeFragment} {l l' : String} {ls ls' : List String}
    (h : LinesErase fs ls ls') (hline : LineErases gs l l') :
    LinesErase (fs ++ gs) (ls ++ [l]) (ls' ++ [l']) := by
  induction h with
  | nil => simpa using LinesErase.cons hline .nil
  | cons hfirst _ ih =>
    rw [List.append_assoc]
    exact .cons hfirst ih

/-- Lines that are moved in differ in the same fragments. -/
theorem LinesErase.indented {fs : List TypeFragment} {ls ls' : List String}
    (h : LinesErase fs ls ls') (depth : ℕ) :
    LinesErase fs (ls.map (Writer.indented depth)) (ls'.map (Writer.indented depth)) := by
  induction h with
  | nil => exact .nil
  | cons hline _ ih =>
    obtain ⟨inner, a, b, htext, rfl, rfl⟩ := hline
    refine .cons ⟨depth + inner, a, b, htext, ?_, ?_⟩ ih
    · exact Writer.indented_indented depth inner a
    · exact Writer.indented_indented depth inner b

theorem LineErases.same (l : String) : LineErases [] l l :=
  ⟨0, l, l, .same l, (Writer.indented_zero l).symm, (Writer.indented_zero l).symm⟩

theorem getLast?_indented {depth : ℕ} {text : String} {c : Char}
    (h : text.toList.getLast? = some c) :
    (Writer.indented depth text).toList.getLast? = some c := by
  have hne : text ≠ "" := by
    rintro rfl
    cases h
  rw [Writer.indented_of_ne hne, String.toList_append, List.getLast?_append, h, Option.some_or]

/-- The two lines are the same, or end in the same character, which is not a closing brace. -/
theorem LineErases.last {fs : List TypeFragment} {l l' : String} (h : LineErases fs l l') :
    (fs = [] ∧ l = l') ∨
      ∃ c ≠ '\x7d', l.toList.getLast? = some c ∧ l'.toList.getLast? = some c := by
  obtain ⟨depth, a, b, htext, rfl, rfl⟩ := h
  cases htext with
  | same => exact .inl ⟨rfl, rfl⟩
  | erased _ _ last last' unclosed =>
    exact .inr ⟨_, unclosed, getLast?_indented last, getLast?_indented last'⟩

theorem LineErases.refusesBlank_eq {fs : List TypeFragment} {l l' : String}
    (h : LineErases fs l l') : Writer.refusesBlank l = Writer.refusesBlank l' := by
  unfold Writer.refusesBlank
  rcases h.last with ⟨-, rfl⟩ | ⟨c, -, hl, hl'⟩
  · rfl
  · rw [hl, hl']

/-- A closing brace has no fragments. -/
theorem LineErases.closing_iff {fs : List TypeFragment} {l l' : String} (h : LineErases fs l l')
    (depth : ℕ) : (l = Writer.tabs depth ++ "\x7d" ↔ l' = Writer.tabs depth ++ "\x7d") ∧
      (l = Writer.tabs depth ++ "\x7d" → fs = []) := by
  have hclosing : ∀ c ≠ '\x7d', ∀ l : String, l.toList.getLast? = some c →
      l ≠ Writer.tabs depth ++ "\x7d" := by
    rintro c hc l hl rfl
    simp [List.getLast?_append] at hl
    exact hc hl.symm
  rcases h.last with ⟨rfl, rfl⟩ | ⟨c, hc, hl, hl'⟩
  · exact ⟨Iff.rfl, fun _ => rfl⟩
  · exact ⟨iff_of_false (hclosing c hc l hl) (hclosing c hc l' hl'),
      fun heq => absurd heq (hclosing c hc l hl)⟩

/-! ## Writers -/

/-- The lines of two writers, the newest first, that differ in fragments only; the fragments are in
the order of the text. -/
inductive WrittenErases : List TypeFragment → List String → List String → Prop
  | nil : WrittenErases [] [] []
  | cons {fs gs : List TypeFragment} {l l' : String} {ls ls' : List String} :
    WrittenErases fs ls ls' → LineErases gs l l' → WrittenErases (fs ++ gs) (l :: ls) (l' :: ls')

theorem WrittenErases.reverse {fs : List TypeFragment} {ls ls' : List String}
    (h : WrittenErases fs ls ls') : LinesErase fs ls.reverse ls'.reverse := by
  induction h with
  | nil => exact .nil
  | cons _ hline ih =>
    rw [List.reverse_cons, List.reverse_cons]
    exact ih.concat hline

/-- Two writers in the same state, whose lines differ in fragments only. -/
structure Alike (fs : List TypeFragment) (w w' : Writer) : Prop where
  depth : w.depth = w'.depth
  pendingBlank : w.pendingBlank = w'.pendingBlank
  written : WrittenErases fs w.written w'.written

namespace Alike

variable {fs gs : List TypeFragment} {w w' : Writer}

theorem start : Alike [] {} {} :=
  ⟨rfl, rfl, .nil⟩

theorem flushBlank (h : Alike fs w w') : Alike fs w.flushBlank w'.flushBlank := by
  obtain ⟨ls, depth, pending⟩ := w
  obtain ⟨ls', depth', pending'⟩ := w'
  obtain ⟨rfl, rfl, h⟩ := h
  unfold Writer.flushBlank
  cases pending with
  | false => exact ⟨rfl, rfl, h⟩
  | true =>
    cases h with
    | nil => exact ⟨rfl, rfl, .nil⟩
    | cons h hline =>
      simp only [if_true, hline.refusesBlank_eq]
      split_ifs
      · exact ⟨rfl, rfl, h.cons hline⟩
      · have hblank := (h.cons hline).cons (.same "")
        rw [List.append_nil] at hblank
        exact ⟨rfl, rfl, hblank⟩

theorem line (h : Alike fs w w') {a b : String} (htext : TextErases gs a b) :
    Alike (fs ++ gs) (w.line a) (w'.line b) := by
  refine ⟨?_, ?_, ?_⟩
  · rw [Writer.depth_line, Writer.depth_line, h.depth]
  · rw [Writer.pendingBlank_line, Writer.pendingBlank_line]
  · rw [Writer.written_line, Writer.written_line, h.depth]
    exact h.flushBlank.written.cons ⟨_, a, b, htext, rfl, rfl⟩

theorem line_same (h : Alike fs w w') (text : String) : Alike fs (w.line text) (w'.line text) := by
  simpa using h.line (.same text)

theorem lineAll (h : Alike fs w w') (texts : List String) :
    Alike fs (w.lineAll texts) (w'.lineAll texts) := by
  induction texts generalizing w w' with
  | nil => exact h
  | cons text texts ih => exact ih (h.line_same text)

theorem blank (h : Alike fs w w') : Alike fs w.blank w'.blank :=
  ⟨h.depth, rfl, h.written⟩

theorem enter (h : Alike fs w w') {a b : String} (htext : TextErases gs a b) :
    Alike (fs ++ gs) (w.enter a) (w'.enter b) :=
  have hline := h.line htext
  ⟨congrArg (· + 1) hline.depth, hline.pendingBlank, hline.written⟩

theorem leave (h : Alike fs w w') (closing : String) :
    Alike fs (w.leave closing) (w'.leave closing) := by
  have hup : Alike fs { w with depth := w.depth - 1, pendingBlank := false }
      { w' with depth := w'.depth - 1, pendingBlank := false } :=
    ⟨congrArg (· - 1) h.depth, rfl, h.written⟩
  exact hup.line_same closing

/-- A chain continues the line of the one writer exactly if it continues that of the other. -/
theorem enterChain (h : Alike fs w w') (opening : String) :
    Alike fs (w.enterChain opening) (w'.enterChain opening) := by
  have hplain : Alike fs (w.enter opening) (w'.enter opening) := by
    simpa using h.enter (.same opening)
  obtain ⟨ls, depth, pending⟩ := w
  obtain ⟨ls', depth', pending'⟩ := w'
  obtain ⟨rfl, rfl, hwritten⟩ := h
  unfold Writer.enterChain
  cases hwritten with
  | nil => exact hplain
  | @cons gs _ _ _ rest rest' hrest hline =>
    obtain ⟨hclosing, hnone⟩ := hline.closing_iff depth
    simp only [hclosing]
    split_ifs with hcontinues
    · -- The line that is taken off is a closing brace, so no fragments go with it.
      have hlast := (Bool.and_eq_true_iff.1 hcontinues).2
      rw [hnone (hclosing.2 (of_decide_eq_true hlast)), List.append_nil]
      have hpopped : Alike gs ⟨rest, depth, pending⟩ ⟨rest', depth, pending⟩ := ⟨rfl, rfl, hrest⟩
      simpa using hpopped.enter (.same ("\x7d " ++ opening))
    · exact hplain

theorem append (h : Alike fs w w') (other : Writer) :
    Alike fs (w.append other) (w'.append other) := by
  unfold Writer.append
  split
  · exact (h.lineAll _).blank
  · exact h.lineAll _

end Alike

/-! ## Steps -/

mutual

theorem Step.alike_run {fs : List TypeFragment} (step : Step) {w w' : Writer} (h : Alike fs w w') :
    Alike fs (step.run w) (step.run w') := by
  cases step with
  | line text => exact h.line_same text
  | lines text => exact h.lineAll _
  | blank => exact h.blank
  | block opening closing body =>
    rw [Step.run, Step.run]
    have hentered : Alike fs (w.enter opening) (w'.enter opening) := by
      simpa using h.enter (.same opening)
    exact (Step.alike_runAll body hentered).leave closing
  | chain opening closing body =>
    rw [Step.run, Step.run]
    exact (Step.alike_runAll body (h.enterChain opening)).leave closing
  | append steps => exact h.append _

theorem Step.alike_runAll {fs : List TypeFragment} (steps : List Step) {w w' : Writer}
    (h : Alike fs w w') : Alike fs (Step.runAll steps w) (Step.runAll steps w') := by
  cases steps with
  | nil => exact h
  | cons step steps =>
    rw [Step.runAll, Step.runAll]
    exact Step.alike_runAll steps (Step.alike_run step h)

end

/-- Steps that keep writers alike, the fragments apart. -/
def StepsErase (fs : List TypeFragment) (steps steps' : List Step) : Prop :=
  ∀ (gs : List TypeFragment) (w w' : Writer), Alike gs w w' →
    Alike (gs ++ fs) (Step.runAll steps w) (Step.runAll steps' w')

namespace StepsErase

variable {fs gs : List TypeFragment} {steps steps' more more' : List Step}

theorem refl (steps : List Step) : StepsErase [] steps steps := by
  intro gs w w' h
  rw [List.append_nil]
  exact Step.alike_runAll steps h

theorem append (h : StepsErase fs steps steps') (h' : StepsErase gs more more') :
    StepsErase (fs ++ gs) (steps ++ more) (steps' ++ more') := by
  intro hs w w' hw
  rw [Step.runAll_append, Step.runAll_append, ← List.append_assoc]
  exact h' _ _ _ (h _ _ _ hw)

theorem cons {step step' : Step} (h : StepsErase fs [step] [step'])
    (h' : StepsErase gs more more') : StepsErase (fs ++ gs) (step :: more) (step' :: more') :=
  h.append h'

theorem followed (h : StepsErase fs steps steps') (more : List Step) :
    StepsErase fs (steps ++ more) (steps' ++ more) := by
  simpa using h.append (refl more)

theorem preceded (more : List Step) (h : StepsErase fs steps steps') :
    StepsErase fs (more ++ steps) (more ++ steps') :=
  (refl more).append h

theorem line {a b : String} (htext : TextErases fs a b) : StepsErase fs [.line a] [.line b] :=
  fun _ _ _ hw => hw.line htext

theorem block {a b : String} (htext : TextErases fs a b) (closing : String)
    (hbody : StepsErase gs steps steps') :
    StepsErase (fs ++ gs) [.block a closing steps] [.block b closing steps'] := by
  intro hs w w' hw
  have hinner := hbody _ _ _ (hw.enter htext)
  rw [List.append_assoc] at hinner
  exact hinner.leave closing

theorem block_body (opening closing : String) (hbody : StepsErase fs steps steps') :
    StepsErase fs [.block opening closing steps] [.block opening closing steps'] :=
  block (.same opening) closing hbody

theorem block_head {a b : String} (htext : TextErases fs a b) (closing : String)
    (body : List Step) : StepsErase fs [.block a closing body] [.block b closing body] := by
  simpa using block htext closing (refl body)

theorem chain (opening closing : String) (hbody : StepsErase fs steps steps') :
    StepsErase fs [.chain opening closing steps] [.chain opening closing steps'] :=
  fun _ _ _ hw => (hbody _ _ _ (hw.enterChain opening)).leave closing

theorem flatMap {α : Type} (xs : List α) {f : α → List TypeFragment} {g g' : α → List Step}
    (h : ∀ x, StepsErase (f x) (g x) (g' x)) :
    StepsErase (xs.flatMap f) (xs.flatMap g) (xs.flatMap g') := by
  induction xs with
  | nil => exact refl []
  | cons x xs ih =>
    rw [List.flatMap_cons, List.flatMap_cons, List.flatMap_cons]
    exact (h x).append ih

theorem map {α : Type} (xs : List α) {f : α → List TypeFragment} {g g' : α → Step}
    (h : ∀ x, StepsErase (f x) [g x] [g' x]) :
    StepsErase (xs.flatMap f) (xs.map g) (xs.map g') := by
  rw [List.map_eq_flatMap, List.map_eq_flatMap]
  exact flatMap xs h

/-- Steps on their own write lines that differ in the fragments only. -/
theorem linesErase (h : StepsErase fs steps steps') :
    LinesErase fs (Step.runAll steps {}).written.reverse (Step.runAll steps' {}).written.reverse :=
  (h _ _ _ Alike.start).written.reverse

end StepsErase

end HttpStubs.Code

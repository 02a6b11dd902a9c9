import Mathlib.Data.List.Basic
import Mathlib.Data.List.Chain
import HttpStubs.Proofs.BlockNesting

/-!
# Blank lines

If no text is empty, the lines of a run neither begin nor end with an empty line, and no empty line
follows another one or a line that opens a bracket. Nor does one stand before the closing line of a
block. Which lines close a block is not to be seen from the lines, so that they are marked: `Marked`
writes what the writer writes (`Step.plain_markAll`) and keeps for each line whether it closes a
block. Each step keeps the lines `Tidy`: this says which lines may be neighbours, and that the newest
line is not empty. A chain breaks the latter for a moment, when it has taken a brace away, and writes
its opening line at once.
-/

namespace HttpStubs.Code

open Writer (indented refusesBlank)

/-! ## Marked lines -/

/-- A written line, with whether it closes a block. -/
structure MarkedLine where
  text : String
  closes : Bool
  deriving DecidableEq, Repr

/-- A line that closes no block. -/
def MarkedLine.inner (text : String) : MarkedLine :=
  ⟨text, false⟩

@[simp] theorem MarkedLine.map_text_inner (texts : List String) :
    (texts.map inner).map (·.text) = texts := by
  rw [List.map_map]
  exact List.map_id texts

/-- A writer that keeps the marks of its lines. -/
structure Marked where
  /-- The lines, the newest first. -/
  written : List MarkedLine := []
  depth : ℕ := 0
  pendingBlank : Bool := false
  deriving DecidableEq, Repr

namespace Marked

/-- The writer without the marks. -/
def plain (m : Marked) : Writer :=
  ⟨m.written.map (·.text), m.depth, m.pendingBlank⟩

/-- The blank line that comes before the next line, if one does. -/
def gap (m : Marked) : List MarkedLine :=
  m.plain.gap.map .inner

/-- Writes one line. -/
def put (m : Marked) (text : String) (closes : Bool) : Marked :=
  ⟨⟨indented m.depth text, closes⟩ :: (m.gap ++ m.written), m.depth, false⟩

/-- Writes lines one after the other. -/
def putAll (m : Marked) (lines : List MarkedLine) : Marked :=
  lines.foldl (fun m l => m.put l.text l.closes) m

/-- Asks for a blank line before the next line. -/
def blank (m : Marked) : Marked :=
  { m with pendingBlank := true }

/-- Writes an opening line and goes one level deeper. -/
def enter (m : Marked) (opening : String) : Marked :=
  { m.put opening false with depth := m.depth + 1 }

/-- Goes one level up and writes a closing line. -/
def leave (m : Marked) (closing : String) : Marked :=
  ({ m with depth := m.depth - 1, pendingBlank := false } : Marked).put closing true

/-- As `enter`, on the line of the closing brace just written at this depth if there is one. -/
def enterChain (m : Marked) (opening : String) : Marked :=
  if m.plain.continues then
    ({ m with written := m.written.tail } : Marked).enter ("\x7d " ++ opening)
  else m.enter opening

/-- Writes the lines of another writer at the current depth, with its pending blank line. -/
def append (m other : Marked) : Marked :=
  let m := m.putAll other.written.reverse
  if other.pendingBlank then m.blank else m

end Marked

mutual

/-- Carries out one step. -/
def Step.mark : Step → Marked → Marked
  | .line text, m => m.put text false
  | .lines text, m => m.putAll ((Text.lines text).map .inner)
  | .blank, m => m.blank
  | .block opening closing body, m => (Step.markAll body (m.enter opening)).leave closing
  | .chain opening closing body, m => (Step.markAll body (m.enterChain opening)).leave closing
  | .append steps, m => m.append (Step.markAll steps {})

/-- Carries out steps in order. -/
def Step.markAll : List Step → Marked → Marked
  | [], m => m
  | step :: steps, m => Step.markAll steps (step.mark m)

end

namespace Marked

theorem plain_put (m : Marked) (text : String) (closes : Bool) :
    (m.put text closes).plain = m.plain.line text := by
  have hwritten : (m.plain.line text).written = (m.put text closes).written.map (·.text) := by
    rw [Writer.written_line, Writer.written_flushBlank_eq, put, List.map_cons, List.map_append, gap,
      MarkedLine.map_text_inner]
    rfl
  have hdepth : (m.plain.line text).depth = m.depth := Writer.depth_line _ _
  have hpending : (m.plain.line text).pendingBlank = false := Writer.pendingBlank_line _ _
  have heta : m.plain.line text = ⟨(m.plain.line text).written, (m.plain.line text).depth,
      (m.plain.line text).pendingBlank⟩ := rfl
  rw [heta, hwritten, hdepth, hpending]
  rfl

theorem plain_putAll (m : Marked) (lines : List MarkedLine) :
    (m.putAll lines).plain = m.plain.lineAll (lines.map (·.text)) := by
  induction lines generalizing m with
  | nil => rfl
  | cons l lines ih =>
    rw [List.map_cons, Writer.lineAll_cons, ← plain_put m l.text l.closes]
    exact ih (m.put l.text l.closes)

theorem plain_enter (m : Marked) (opening : String) :
    (m.enter opening).plain = m.plain.enter opening := by
  unfold Writer.enter
  rw [← plain_put m opening false]
  rfl

theorem plain_leave (m : Marked) (closing : String) :
    (m.leave closing).plain = m.plain.leave closing :=
  plain_put _ closing true

theorem plain_enterChain (m : Marked) (opening : String) :
    (m.enterChain opening).plain = m.plain.enterChain opening := by
  unfold enterChain
  by_cases h : m.plain.continues
  · have htail : ({ m with written := m.written.tail } : Marked).plain = m.plain.unwritten := by
      simp [plain, Writer.unwritten, List.map_tail]
    rw [if_pos h, plain_enter, htail, Writer.enterChain_of_continues h]
  · rw [if_neg h, plain_enter, Writer.enterChain_of_not_continues h]

theorem plain_append (m other : Marked) :
    (m.append other).plain = m.plain.append other.plain := by
  have hlines : (m.putAll other.written.reverse).plain =
      m.plain.lineAll other.plain.written.reverse := by
    rw [plain_putAll, List.map_reverse]
    rfl
  unfold append Writer.append
  rw [← hlines]
  by_cases h : other.pendingBlank
  · have h' : other.plain.pendingBlank := h
    rw [if_pos h, if_pos h']
    rfl
  · have h' : ¬other.plain.pendingBlank := h
    rw [if_neg h, if_neg h']

end Marked

mutual

theorem Step.plain_mark (step : Step) (m : Marked) : (step.mark m).plain = step.run m.plain := by
  cases step with
  | line text => exact m.plain_put text false
  | lines text =>
    rw [Step.mark, Marked.plain_putAll, MarkedLine.map_text_inner, Step.run]
  | blank => rfl
  | block opening closing body =>
    rw [Step.mark, Marked.plain_leave, Step.plain_markAll body, Marked.plain_enter, Step.run]
  | chain opening closing body =>
    rw [Step.mark, Marked.plain_leave, Step.plain_markAll body, Marked.plain_enterChain, Step.run]
  | append steps =>
    rw [Step.mark, Marked.plain_append, Step.plain_markAll steps, Step.run]
    rfl

/-- The marked lines of a run are its lines. -/
theorem Step.plain_markAll (steps : List Step) (m : Marked) :
    (Step.markAll steps m).plain = Step.runAll steps m.plain := by
  cases steps with
  | nil => rfl
  | cons step steps =>
    rw [Step.markAll, Step.plain_markAll steps, Step.plain_mark step, Step.runAll]

end

/-! ## Neighbours -/

/-- Whether the one line may stand right below the other. -/
def MarkedLine.Follows (later earlier : MarkedLine) : Prop :=
  (later.text = "" → refusesBlank earlier.text = false) ∧ (later.closes → earlier.text ≠ "")

theorem MarkedLine.follows_of_inner {l : MarkedLine} (htext : l.text ≠ "")
    (hinner : l.closes = false) (earlier : MarkedLine) : l.Follows earlier :=
  ⟨fun h => absurd h htext, fun h => by simp [hinner] at h⟩

theorem MarkedLine.follows_of_nonempty {l earlier : MarkedLine} (htext : l.text ≠ "")
    (hearlier : earlier.text ≠ "") : l.Follows earlier :=
  ⟨fun h => absurd h htext, fun _ => hearlier⟩

/-- Lines, the newest first, of which neighbours may be neighbours; the first line is neither empty
nor closes a block. -/
structure Orderly (lines : List MarkedLine) : Prop where
  neighbours : lines.IsChain MarkedLine.Follows
  first : ∀ l ∈ lines.getLast?, l.text ≠ "" ∧ l.closes = false

/-- Orderly lines of which the newest is not empty. -/
structure Tidy (lines : List MarkedLine) : Prop extends Orderly lines where
  newest : ∀ l ∈ lines.head?, l.text ≠ ""

theorem Orderly.tail {lines : List MarkedLine} (h : Orderly lines) : Orderly lines.tail := by
  refine ⟨h.neighbours.tail, fun l hl => h.first l ?_⟩
  cases lines with
  | nil => exact hl
  | cons newest rest =>
    cases rest with
    | nil => cases hl
    | cons next rest => rwa [List.getLast?_cons_cons]

theorem tidy_singleton {l : MarkedLine} (htext : l.text ≠ "") (hinner : l.closes = false) :
    Tidy [l] := by
  refine ⟨⟨List.isChain_singleton l, fun first hfirst => ?_⟩, by simpa using htext⟩
  obtain rfl : l = first := by simpa using hfirst
  exact ⟨htext, hinner⟩

/-- Tidy lines may stand below any orderly lines: the first of them fits below every line. -/
theorem Tidy.append {lines above : List MarkedLine} (h : Tidy lines) (hne : lines ≠ [])
    (habove : Orderly above) : Tidy (lines ++ above) := by
  refine ⟨⟨List.isChain_append.2 ⟨h.neighbours, habove.neighbours, ?_⟩, ?_⟩, ?_⟩
  · intro first hfirst earlier _
    obtain ⟨htext, hinner⟩ := h.first first hfirst
    exact MarkedLine.follows_of_inner htext hinner earlier
  · intro first hfirst
    rw [List.getLast?_append] at hfirst
    rcases Option.or_eq_some_iff.1 hfirst with hfirst | ⟨-, hfirst⟩
    · exact habove.first first hfirst
    · exact h.first first hfirst
  · intro newest hnewest
    rw [List.head?_append_of_ne_nil lines hne] at hnewest
    exact h.newest newest hnewest

theorem Marked.orderly_gap {m : Marked} (h : Orderly m.written) : Orderly (m.gap ++ m.written) := by
  unfold gap Writer.gap
  split_ifs with hgap
  · rw [Bool.and_eq_true_iff] at hgap
    obtain ⟨last, hlast, hallows⟩ : ∃ last, m.written.head? = some last ∧
        refusesBlank last.text = false := by
      cases hwritten : m.written with
      | nil => simp [plain, hwritten] at hgap
      | cons last rest => exact ⟨last, rfl, by simpa [plain, hwritten] using hgap.2⟩
    refine ⟨List.isChain_cons.2 ⟨?_, h.neighbours⟩, ?_⟩
    · intro earlier hearlier
      obtain rfl : last = earlier := by simpa [hlast] using hearlier
      exact ⟨fun _ => hallows, fun hcloses => by cases hcloses⟩
    · intro first hfirst
      apply h.first first
      cases hwritten : m.written with
      | nil => simp [hwritten] at hlast
      | cons next rest =>
        rw [hwritten] at hfirst
        exact hfirst
  · exact h

namespace Marked

variable {m : Marked}

theorem tidy_put (h : Orderly m.written) {text : String} (htext : text ≠ "") :
    Tidy (m.put text false).written :=
  (tidy_singleton (mt Writer.indented_eq_empty_iff.1 htext) rfl).append (by simp) (orderly_gap h)

theorem tidy_putAll (h : Tidy m.written) {texts : List String} (htexts : "" ∉ texts) :
    Tidy (m.putAll (texts.map .inner)).written := by
  induction texts generalizing m with
  | nil => exact h
  | cons text texts ih =>
    rw [List.mem_cons, not_or] at htexts
    exact ih (tidy_put h.toOrderly (Ne.symm htexts.1)) htexts.2

theorem tidy_enter (h : Orderly m.written) {opening : String} (hopening : opening ≠ "") :
    Tidy (m.enter opening).written :=
  tidy_put h hopening

theorem tidy_enterChain (h : Orderly m.written) {opening : String} (hopening : opening ≠ "") :
    Tidy (m.enterChain opening).written := by
  unfold enterChain
  split_ifs
  · have htail : Orderly ({ m with written := m.written.tail } : Marked).written := h.tail
    exact tidy_enter htail (by simp)
  · exact tidy_enter h hopening

/-- A closing line is written right below a line that is not empty. -/
theorem tidy_leave (h : Tidy m.written) (hstarted : m.written ≠ []) {closing : String}
    (hclosing : closing ≠ "") : Tidy (m.leave closing).written := by
  obtain ⟨newest, rest, hwritten⟩ := List.exists_cons_of_ne_nil hstarted
  have hleave : (m.leave closing).written =
      ⟨indented (m.depth - 1) closing, true⟩ :: newest :: rest := by
    rw [← hwritten]
    rfl
  rw [hwritten] at h
  rw [hleave]
  have hline : indented (m.depth - 1) closing ≠ "" := mt Writer.indented_eq_empty_iff.1 hclosing
  have hnewest : newest.text ≠ "" := h.newest newest (by simp)
  refine ⟨⟨List.isChain_cons.2 ⟨?_, h.neighbours⟩, ?_⟩, ?_⟩
  · intro earlier hearlier
    obtain rfl : newest = earlier := by simpa using hearlier
    exact MarkedLine.follows_of_nonempty hline hnewest
  · intro first hfirst
    rw [List.getLast?_cons_cons] at hfirst
    exact h.first first hfirst
  · simpa using hline

end Marked

/-! ## The lines of another writer -/

/-- A line moved in by some levels. -/
def MarkedLine.moved (depth : ℕ) (l : MarkedLine) : MarkedLine :=
  ⟨indented depth l.text, l.closes⟩

theorem MarkedLine.Follows.moved {later earlier : MarkedLine} (h : later.Follows earlier)
    (depth : ℕ) : (later.moved depth).Follows (earlier.moved depth) := by
  refine ⟨fun hempty => ?_, fun hcloses => ?_⟩
  · exact (Writer.refusesBlank_indented depth earlier.text).trans
      (h.1 (Writer.indented_eq_empty_iff.1 hempty))
  · exact mt Writer.indented_eq_empty_iff.1 (h.2 hcloses)

theorem Tidy.moved {lines : List MarkedLine} (h : Tidy lines) (depth : ℕ) :
    Tidy (lines.map (·.moved depth)) := by
  refine ⟨⟨?_, fun first hfirst => ?_⟩, fun newest hnewest => ?_⟩
  · exact List.isChain_map_of_isChain (·.moved depth)
      (fun _ _ hfollows => hfollows.moved depth) h.neighbours
  · rw [List.getLast?_map] at hfirst
    obtain ⟨l, hl, rfl⟩ := Option.map_eq_some_iff.1 hfirst
    exact ⟨mt Writer.indented_eq_empty_iff.1 (h.first l hl).1, (h.first l hl).2⟩
  · rw [List.head?_map] at hnewest
    obtain ⟨l, hl, rfl⟩ := Option.map_eq_some_iff.1 hnewest
    exact mt Writer.indented_eq_empty_iff.1 (h.newest l hl)

namespace Marked

variable {m other : Marked}

theorem written_putAll_of_calm (hcalm : m.pendingBlank = false) (lines : List MarkedLine) :
    (m.putAll lines).written = (lines.map (·.moved m.depth)).reverse ++ m.written := by
  induction lines generalizing m with
  | nil => rfl
  | cons l lines ih =>
    have hput : (m.put l.text l.closes).written = l.moved m.depth :: m.written := by
      simp [put, gap, Writer.gap, plain, hcalm, MarkedLine.moved]
    change ((m.put l.text l.closes).putAll lines).written = _
    rw [ih rfl, hput]
    simp [put]

/-- The lines of another writer that has some, below the blank line asked for. -/
theorem written_putAll_reverse {lines : List MarkedLine} (h : lines ≠ []) :
    (m.putAll lines.reverse).written = lines.map (·.moved m.depth) ++ (m.gap ++ m.written) := by
  obtain ⟨first, rest, hlines⟩ := List.exists_cons_of_ne_nil (List.reverse_ne_nil_iff.2 h)
  have hsplit : lines = rest.reverse ++ [first] := by
    rw [← List.reverse_reverse lines, hlines, List.reverse_cons]
  rw [hlines]
  change ((m.put first.text first.closes).putAll rest).written = _
  rw [written_putAll_of_calm rfl, hsplit]
  simp [put, MarkedLine.moved]

theorem tidy_append (h : Tidy m.written) (hother : Tidy other.written) :
    Tidy (m.append other).written := by
  have hlines : (m.append other).written = (m.putAll other.written.reverse).written := by
    unfold append
    split_ifs <;> rfl
  rw [hlines]
  by_cases hempty : other.written = []
  · rw [hempty]
    exact h
  rw [written_putAll_reverse hempty]
  exact (hother.moved m.depth).append (by simpa using hempty) (orderly_gap h.toOrderly)

end Marked

/-! ## Runs -/

namespace Marked

variable {m : Marked}

theorem enter_ne_nil (m : Marked) (opening : String) : (m.enter opening).written ≠ [] :=
  List.cons_ne_nil _ _

theorem enterChain_ne_nil (m : Marked) (opening : String) :
    (m.enterChain opening).written ≠ [] := by
  unfold enterChain
  split_ifs
  · exact enter_ne_nil _ _
  · exact enter_ne_nil _ _

theorem putAll_ne_nil (h : m.written ≠ []) (lines : List MarkedLine) :
    (m.putAll lines).written ≠ [] := by
  induction lines generalizing m with
  | nil => exact h
  | cons l lines ih => exact ih (List.cons_ne_nil _ _)

end Marked

/-- A step takes at most one line away and writes one in its place. -/
theorem Step.mark_ne_nil (step : Step) {m : Marked} (h : m.written ≠ []) :
    (step.mark m).written ≠ [] := by
  cases step with
  | line text => exact List.cons_ne_nil _ _
  | lines text => exact Marked.putAll_ne_nil h _
  | blank => exact h
  | block opening closing body => exact List.cons_ne_nil _ _
  | chain opening closing body => exact List.cons_ne_nil _ _
  | append steps =>
    rw [Step.mark, Marked.append]
    split_ifs
    · exact Marked.putAll_ne_nil h _
    · exact Marked.putAll_ne_nil h _

theorem Step.markAll_ne_nil (steps : List Step) {m : Marked} (h : m.written ≠ []) :
    (Step.markAll steps m).written ≠ [] := by
  induction steps generalizing m with
  | nil => exact h
  | cons step steps ih => exact ih (step.mark_ne_nil h)

theorem tidy_nil : Tidy [] :=
  ⟨⟨List.isChain_nil, by simp⟩, by simp⟩

theorem Step.nonempty_of_texts {opening closing : String} {body : List Step}
    (h : "" ∉ opening :: Step.textsAll body ++ [closing]) :
    opening ≠ "" ∧ "" ∉ Step.textsAll body ∧ closing ≠ "" := by
  simp only [List.cons_append, List.mem_cons, List.mem_append, List.not_mem_nil, or_false,
    not_or] at h
  exact ⟨Ne.symm h.1, h.2.1, Ne.symm h.2.2⟩

mutual

theorem Step.tidy_mark (step : Step) (htexts : "" ∉ step.texts) {m : Marked}
    (h : Tidy m.written) : Tidy (step.mark m).written := by
  cases step with
  | line text =>
    have htext : text ≠ "" := fun hempty => htexts (by simp [Step.texts, hempty])
    exact Marked.tidy_put h.toOrderly htext
  | lines text => exact Marked.tidy_putAll h htexts
  | blank => exact h
  | block opening closing body =>
    obtain ⟨hopening, hbody, hclosing⟩ := Step.nonempty_of_texts htexts
    have hlines := Step.tidy_markAll body hbody (Marked.tidy_enter h.toOrderly hopening)
    have hstarted := Step.markAll_ne_nil body (m.enter_ne_nil opening)
    exact Marked.tidy_leave hlines hstarted hclosing
  | chain opening closing body =>
    obtain ⟨hopening, hbody, hclosing⟩ := Step.nonempty_of_texts htexts
    have hlines := Step.tidy_markAll body hbody (Marked.tidy_enterChain h.toOrderly hopening)
    have hstarted := Step.markAll_ne_nil body (m.enterChain_ne_nil opening)
    exact Marked.tidy_leave hlines hstarted hclosing
  | append steps => exact Marked.tidy_append h (Step.tidy_markAll steps htexts tidy_nil)

/-- Steps without an empty text keep the lines tidy. -/
theorem Step.tidy_markAll (steps : List Step) (htexts : "" ∉ Step.textsAll steps) {m : Marked}
    (h : Tidy m.written) : Tidy (Step.markAll steps m).written := by
  cases steps with
  | nil => exact h
  | cons step steps =>
    rw [Step.textsAll_cons, List.mem_append, not_or] at htexts
    exact Step.tidy_markAll steps htexts.2 (Step.tidy_mark step htexts.1 h)

end

/-- Neighbours among the lines without their marks. -/
theorem Tidy.isChain_texts {lines : List MarkedLine} (h : Tidy lines) :
    (lines.map (·.text)).IsChain fun later earlier => later = "" → refusesBlank earlier = false :=
  List.isChain_map_of_isChain (·.text) (fun _ _ hfollows => hfollows.1) h.neighbours

theorem refusesBlank_of_opens {l : String} {c : Char} (hlast : l.toList.getLast? = some c)
    (hopens : c = '\x7b' ∨ c = '(' ∨ c = '[') : refusesBlank l = true := by
  unfold refusesBlank
  rw [hlast]
  rcases hopens with rfl | rfl | rfl <;> rfl

/-- Steps without an empty text, on a new writer, write no empty line at the start or at the end,
below another empty line, below a line that ends in an opening bracket, or above the closing line of
a block. -/
theorem blank_lines_inside (steps : List Step) (htexts : "" ∉ Step.textsAll steps) :
    (Step.runAll steps {}).written.reverse.head? ≠ some "" ∧
      (Step.runAll steps {}).written.reverse.getLast? ≠ some "" ∧
      ¬["", ""] <:+: (Step.runAll steps {}).written.reverse ∧
      (∀ l c, l.toList.getLast? = some c → c = '\x7b' ∨ c = '(' ∨ c = '[' →
        ¬[l, ""] <:+: (Step.runAll steps {}).written.reverse) ∧
      (Step.markAll steps {}).plain = Step.runAll steps {} ∧
      ∀ above closing : MarkedLine, closing.closes →
        [above, closing] <:+: (Step.markAll steps {}).written.reverse → above.text ≠ "" := by
  have hplain : (Step.markAll steps {}).plain = Step.runAll steps {} := Step.plain_markAll steps {}
  have htidy := Step.tidy_markAll steps htexts (m := {}) tidy_nil
  have hwritten : (Step.runAll steps {}).written =
      (Step.markAll steps {}).written.map (·.text) := by
    rw [← hplain]
    rfl
  have hbelow : ∀ l, [l, ""] <:+: (Step.runAll steps {}).written.reverse →
      refusesBlank l = false := by
    intro l hinfix
    rw [hwritten, ← List.reverse_infix, List.reverse_reverse] at hinfix
    have hpair := htidy.isChain_texts.infix hinfix
    exact (List.isChain_cons_cons.1 hpair).1 rfl
  refine ⟨?_, ?_, ?_, ?_, hplain, ?_⟩
  · rw [hwritten, List.head?_reverse, List.getLast?_map]
    intro hfirst
    obtain ⟨l, hl, hempty⟩ := Option.map_eq_some_iff.1 hfirst
    exact (htidy.first l hl).1 hempty
  · rw [hwritten, List.getLast?_reverse, List.head?_map]
    intro hnewest
    obtain ⟨l, hl, hempty⟩ := Option.map_eq_some_iff.1 hnewest
    exact htidy.newest l hl hempty
  · intro hinfix
    exact absurd (hbelow "" hinfix) (by decide)
  · intro l c hlast hopens hinfix
    have hallows := hbelow l hinfix
    rw [refusesBlank_of_opens hlast hopens] at hallows
    cases hallows
  · intro above closing hcloses hinfix
    rw [← List.reverse_infix, List.reverse_reverse] at hinfix
    have hpair := htidy.neighbours.infix hinfix
    exact (List.isChain_cons_cons.1 hpair).1.2 hcloses

/-- A class with a chain and appended lines, where blank lines are asked for everywhere. -/
def spacedSteps : List Step :=
  [.blank, .block "class A \x7b" "\x7d" [.blank, .block "if (x) \x7b" "\x7d" [.line "f();", .blank],
    .chain "else \x7b" "\x7d" [.blank, .line "g();"], .blank,
    .append [.blank, .line "h();", .blank, .line "i();", .blank]], .blank]

theorem blank_lines_inside_spaced :
    "" ∉ Step.textsAll spacedSteps ∧
      (Step.runAll spacedSteps {}).written.reverse =
        ["class A \x7b", "\tif (x) \x7b", "\t\tf();", "\t\x7d else \x7b", "\t\tg();", "\t\x7d", "",
          "\th();", "", "\ti();", "\x7d"] ∧
      ¬["", ""] <:+: (Step.runAll spacedSteps {}).written.reverse ∧
      [⟨"\ti();", false⟩, ⟨"\x7d", true⟩] <:+: (Step.markAll spacedSteps {}).written.reverse ∧
      "\ti();" ≠ "" := by
  have htexts : "" ∉ Step.textsAll spacedSteps := by decide
  have hclosing : [⟨"\ti();", false⟩, ⟨"\x7d", true⟩] <:+:
      (Step.markAll spacedSteps {}).written.reverse := by
    decide
  obtain ⟨-, -, hsingle, -, -, habove⟩ := blank_lines_inside spacedSteps htexts
  exact ⟨htexts, by decide, hsingle, hclosing, habove _ _ rfl hclosing⟩

end HttpStubs.Code

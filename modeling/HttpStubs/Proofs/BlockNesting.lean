import Mathlib.Data.List.Basic
import HttpStubs.Proofs.Placement

/-!
# Blocks nest

A run of steps comes back to the depth it started at and never goes up from depth 0
(`Step.runAll?_eq_some`). The body of a block stays above the opening line, its floor: a chain in
the body may take the last line away, but never the floor, since a floor that does not begin with a
tab is no closing brace one level deeper. What the body writes depends on the floor only through
whether a blank line may follow it (`Step.paired_runAll`). Hence a block adds its lines below the
others, and a chain does the same in the place of a closing brace (`Step.written_bodies`).
-/

namespace HttpStubs.Code

/-! ## Going up -/

/-- As `leave`, but there is nothing above depth 0. -/
def Writer.leave? (w : Writer) (closing : String) : Option Writer :=
  if w.depth = 0 then none else some (w.leave closing)

mutual

/-- As `Step.run`, but fails where a block would go up from depth 0. -/
def Step.run? : Step → Writer → Option Writer
  | .line text, w => some (w.line text)
  | .lines text, w => some (w.lineAll (Text.lines text))
  | .blank, w => some w.blank
  | .block opening closing body, w =>
    (Step.runAll? body (w.enter opening)).bind (·.leave? closing)
  | .chain opening closing body, w =>
    (Step.runAll? body (w.enterChain opening)).bind (·.leave? closing)
  | .append steps, w => (Step.runAll? steps {}).map w.append

/-- As `Step.runAll`, but fails where a block would go up from depth 0. -/
def Step.runAll? : List Step → Writer → Option Writer
  | [], w => some w
  | step :: steps, w => (step.run? w).bind (Step.runAll? steps)

end

theorem Writer.leave?_eq_some {w : Writer} (h : 0 < w.depth) (closing : String) :
    w.leave? closing = some (w.leave closing) :=
  if_neg (by omega)

mutual

theorem Step.run?_eq_some (step : Step) (w : Writer) : step.run? w = some (step.run w) := by
  cases step with
  | line text => rfl
  | lines text => rfl
  | blank => rfl
  | block opening closing body =>
    have hdepth : 0 < (Step.runAll body (w.enter opening)).depth := by
      rw [Step.depth_runAll, Writer.depth_enter]
      omega
    rw [Step.run?, Step.runAll?_eq_some body, Option.bind_some, Writer.leave?_eq_some hdepth,
      Step.run]
  | chain opening closing body =>
    have hdepth : 0 < (Step.runAll body (w.enterChain opening)).depth := by
      rw [Step.depth_runAll, Writer.depth_enterChain]
      omega
    rw [Step.run?, Step.runAll?_eq_some body, Option.bind_some, Writer.leave?_eq_some hdepth,
      Step.run]
  | append steps => rw [Step.run?, Step.runAll?_eq_some steps, Option.map_some, Step.run]

/-- No run goes up from depth 0. -/
theorem Step.runAll?_eq_some (steps : List Step) (w : Writer) :
    Step.runAll? steps w = some (Step.runAll steps w) := by
  cases steps with
  | nil => rfl
  | cons step steps =>
    rw [Step.runAll?, Step.run?_eq_some step, Option.bind_some, Step.runAll?_eq_some steps,
      Step.runAll]

end

/-! ## Lines above a floor -/

namespace Writer

/-- The blank line that comes before the next line, if one does. -/
def gap (w : Writer) : List String :=
  if w.pendingBlank && w.written.head?.any (!refusesBlank ·) then [""] else []

theorem gap_cases (w : Writer) : w.gap = [] ∨ w.gap = [""] := by
  unfold gap
  split_ifs
  · exact .inr rfl
  · exact .inl rfl

theorem written_flushBlank_eq (w : Writer) : w.flushBlank.written = w.gap ++ w.written := by
  obtain ⟨written, depth, pending⟩ := w
  cases pending with
  | false => rfl
  | true =>
    cases written with
    | nil => rfl
    | cons last rest => by_cases h : refusesBlank last <;> simp [flushBlank, gap, h]

/-- A closing brace at a depth, as a chain looks for it. -/
def brace (depth : ℕ) : String :=
  tabs depth ++ "\x7d"

/-- Whether a chain takes over the last line. -/
def continues (w : Writer) : Bool :=
  !w.pendingBlank && w.written.head? = some (brace w.depth)

/-- The writer without its last line. -/
def unwritten (w : Writer) : Writer :=
  { w with written := w.written.tail }

theorem enterChain_of_continues {w : Writer} (h : w.continues) (opening : String) :
    w.enterChain opening = w.unwritten.enter ("\x7d " ++ opening) := by
  obtain ⟨written, depth, pending⟩ := w
  cases written with
  | nil => simp [continues] at h
  | cons last rest =>
    have hlast : (!pending && last = tabs depth ++ "\x7d") = true := by
      simpa [continues, brace] using h
    exact if_pos hlast

theorem enterChain_of_not_continues {w : Writer} (h : ¬w.continues) (opening : String) :
    w.enterChain opening = w.enter opening := by
  obtain ⟨written, depth, pending⟩ := w
  cases written with
  | nil => rfl
  | cons last rest =>
    have hlast : ¬(!pending && last = tabs depth ++ "\x7d") = true := by
      simpa [continues, brace] using h
    exact if_neg hlast

theorem written_enter (w : Writer) (opening : String) :
    (w.enter opening).written = indented w.depth opening :: (w.gap ++ w.written) := by
  rw [← written_flushBlank_eq]
  exact written_line w opening

@[simp] theorem pendingBlank_enter (w : Writer) (opening : String) :
    (w.enter opening).pendingBlank = false :=
  pendingBlank_line w opening

theorem written_leave (w : Writer) (closing : String) :
    (w.leave closing).written = indented (w.depth - 1) closing :: w.written :=
  written_line { w with depth := w.depth - 1, pendingBlank := false } closing

/-- The line is empty or has at least so many tabs in front. -/
def IsDeep (depth : ℕ) (l : String) : Prop :=
  l = "" ∨ (tabs depth).toList <+: l.toList

theorem isDeep_indented (depth : ℕ) (text : String) : IsDeep depth (indented depth text) := by
  by_cases h : text = ""
  · exact .inl (by rw [h, indented_empty])
  · refine .inr ?_
    rw [indented_of_ne h, String.toList_append]
    exact List.prefix_append _ _

theorem IsDeep.outer {depth : ℕ} {l : String} (h : IsDeep (depth + 1) l) : IsDeep depth l := by
  refine h.imp_right fun hprefix => List.IsPrefix.trans ?_ hprefix
  rw [toList_tabs_add]
  exact List.prefix_append _ _

theorem isDeep_of_mem_gap {w : Writer} {depth : ℕ} {l : String} (h : l ∈ w.gap) :
    IsDeep depth l := by
  rcases gap_cases w with hgap | hgap <;> rw [hgap] at h
  · cases h
  · exact .inl (List.mem_singleton.1 h)

/-- A line that is no closing brace at a depth, so that no chain at that depth takes it away. -/
def IsFloor (depth : ℕ) (l : String) : Prop :=
  l ≠ brace depth

/-- An opening line is a floor of the body unless its text begins with a tab. -/
theorem isFloor_indented {opening : String} (h : opening.toList.head? ≠ some '\t') (depth : ℕ) :
    IsFloor (depth + 1) (indented depth opening) := by
  unfold IsFloor brace
  rw [Ne, indented_eq_closing_iff]
  rintro rfl
  exact h rfl

/-- The writer has the lines `added` above the floor `f`. -/
structure Stands (depth : ℕ) (added : List String) (f : String) (below : List String)
    (w : Writer) : Prop where
  written_eq : w.written = added ++ f :: below
  depth_eq : w.depth = depth

/-- Two writers have the same lines above their floors. -/
def Paired (depth : ℕ) (f g : String) (below below' : List String) (v w : Writer) : Prop :=
  v.pendingBlank = w.pendingBlank ∧ ∃ added, (∀ l ∈ added, IsDeep depth l) ∧
    Stands depth added f below v ∧ Stands depth added g below' w

namespace Paired

variable {depth : ℕ} {f g : String} {below below' : List String} {v w : Writer}

theorem blank (h : Paired depth f g below below' v w) :
    Paired depth f g below below' v.blank w.blank := by
  obtain ⟨-, added, hdeep, hv, hw⟩ := h
  exact ⟨rfl, added, hdeep, ⟨hv.written_eq, hv.depth_eq⟩, ⟨hw.written_eq, hw.depth_eq⟩⟩

section

variable (alike : refusesBlank f = refusesBlank g)

include alike

/-- Blank lines come before the same lines: the last lines are the same, or they are the floors. -/
theorem gap_eq (h : Paired depth f g below below' v w) : v.gap = w.gap := by
  obtain ⟨hpending, added, -, hv, hw⟩ := h
  unfold gap
  rw [hpending, hv.written_eq, hw.written_eq]
  cases added with
  | nil => simp [alike]
  | cons l added => rfl

theorem line (h : Paired depth f g below below' v w) (text : String) :
    Paired depth f g below below' (v.line text) (w.line text) := by
  have hgap := h.gap_eq alike
  obtain ⟨-, added, hdeep, hv, hw⟩ := h
  refine ⟨by rw [pendingBlank_line, pendingBlank_line],
    indented depth text :: (w.gap ++ added), ?_, ⟨?_, ?_⟩, ⟨?_, ?_⟩⟩
  · intro l hl
    rcases List.mem_cons.1 hl with rfl | hl
    · exact isDeep_indented depth text
    · exact (List.mem_append.1 hl).elim isDeep_of_mem_gap (hdeep l)
  · rw [written_line, written_flushBlank_eq, hgap, hv.written_eq, hv.depth_eq]
    simp
  · rw [depth_line, hv.depth_eq]
  · rw [written_line, written_flushBlank_eq, hw.written_eq, hw.depth_eq]
    simp
  · rw [depth_line, hw.depth_eq]

theorem lineAll (h : Paired depth f g below below' v w) (texts : List String) :
    Paired depth f g below below' (v.lineAll texts) (w.lineAll texts) := by
  induction texts generalizing v w with
  | nil => exact h
  | cons text texts ih => exact ih (h.line alike text)

theorem append (h : Paired depth f g below below' v w) (other : Writer) :
    Paired depth f g below below' (v.append other) (w.append other) := by
  unfold Writer.append
  split
  · exact (h.lineAll alike _).blank
  · exact h.lineAll alike _

/-- The lines of two writers that go deeper stand on the same new floor. -/
theorem enter (h : Paired depth f g below below' v w) (opening : String) :
    ∃ added, (∀ l ∈ added, IsDeep depth l) ∧
      Paired (depth + 1) (indented depth opening) (indented depth opening)
        (added ++ f :: below) (added ++ g :: below') (v.enter opening) (w.enter opening) := by
  have hgap := h.gap_eq alike
  obtain ⟨-, added, hdeep, hv, hw⟩ := h
  refine ⟨w.gap ++ added, ?_, ?_, [], by simp, ⟨?_, ?_⟩, ⟨?_, ?_⟩⟩
  · intro l hl
    exact (List.mem_append.1 hl).elim isDeep_of_mem_gap (hdeep l)
  · rw [pendingBlank_enter, pendingBlank_enter]
  · rw [written_enter, hgap, hv.written_eq, hv.depth_eq]
    simp
  · rw [depth_enter, hv.depth_eq]
  · rw [written_enter, hw.written_eq, hw.depth_eq]
    simp
  · rw [depth_enter, hw.depth_eq]

end

/-- Two writers that stand on a new floor go up: the floor is one of the lines above the old. -/
theorem leave {opening : String} {added : List String} (hadded : ∀ l ∈ added, IsDeep depth l)
    (h : Paired (depth + 1) (indented depth opening) (indented depth opening)
      (added ++ f :: below) (added ++ g :: below') v w) (closing : String) :
    Paired depth f g below below' (v.leave closing) (w.leave closing) := by
  obtain ⟨-, inner, hdeep, hv, hw⟩ := h
  refine ⟨(pendingBlank_line _ closing).trans (pendingBlank_line _ closing).symm,
    indented depth closing :: (inner ++ indented depth opening :: added), ?_, ⟨?_, ?_⟩, ⟨?_, ?_⟩⟩
  · intro l hl
    simp only [List.mem_cons, List.mem_append] at hl
    rcases hl with rfl | hl | rfl | hl
    · exact isDeep_indented depth closing
    · exact (hdeep l hl).outer
    · exact isDeep_indented depth opening
    · exact hadded l hl
  · rw [written_leave, hv.written_eq, hv.depth_eq]
    simp
  · rw [depth_leave, hv.depth_eq, Nat.add_sub_cancel]
  · rw [written_leave, hw.written_eq, hw.depth_eq]
    simp
  · rw [depth_leave, hw.depth_eq, Nat.add_sub_cancel]

theorem continues_eq (hf : IsFloor depth f) (hg : IsFloor depth g)
    (h : Paired depth f g below below' v w) : v.continues = w.continues := by
  obtain ⟨hpending, added, -, hv, hw⟩ := h
  unfold continues
  rw [hpending, hv.written_eq, hw.written_eq, hv.depth_eq, hw.depth_eq]
  cases added with
  | nil =>
    have hf' : f ≠ brace depth := hf
    have hg' : g ≠ brace depth := hg
    simp [hf', hg']
  | cons l added => rfl

/-- The line that a chain takes away is not a floor. -/
theorem unwritten (hg : IsFloor depth g) (h : Paired depth f g below below' v w)
    (hcontinues : w.continues) : Paired depth f g below below' v.unwritten w.unwritten := by
  obtain ⟨hpending, added, hdeep, hv, hw⟩ := h
  cases added with
  | nil =>
    unfold continues at hcontinues
    rw [hw.written_eq, hw.depth_eq] at hcontinues
    have hbrace : g = brace depth := by simpa using (Bool.and_eq_true_iff.1 hcontinues).2
    exact absurd hbrace hg
  | cons l added =>
    refine ⟨hpending, added, fun l' hl' => hdeep l' (List.mem_cons_of_mem l hl'),
      ⟨?_, hv.depth_eq⟩, ⟨?_, hw.depth_eq⟩⟩
    · simp [Writer.unwritten, hv.written_eq]
    · simp [Writer.unwritten, hw.written_eq]

end Paired

end Writer

/-! ## Bodies -/

open Writer

mutual

/-- The opening texts of the blocks in a step; those of detached steps are left out. -/
def Step.openings : Step → List String
  | .block opening _ body => opening :: Step.openingsAll body
  | .chain opening _ body => opening :: Step.openingsAll body
  | _ => []

/-- The opening texts of the blocks in some steps. -/
def Step.openingsAll : List Step → List String
  | [] => []
  | step :: steps => step.openings ++ Step.openingsAll steps

end

/-- No opening text begins with a tab. -/
def FlushLeft (openings : List String) : Prop :=
  ∀ opening ∈ openings, opening.toList.head? ≠ some '\t'

instance (openings : List String) : Decidable (FlushLeft openings) :=
  inferInstanceAs (Decidable (∀ opening ∈ openings, opening.toList.head? ≠ some '\t'))

mutual

theorem Step.paired_run (step : Step) (hopen : FlushLeft step.openings) {depth : ℕ} {f g : String}
    {below below' : List String} {v w : Writer} (hf : IsFloor depth f) (hg : IsFloor depth g)
    (alike : refusesBlank f = refusesBlank g) (h : Paired depth f g below below' v w) :
    Paired depth f g below below' (step.run v) (step.run w) := by
  cases step with
  | line text => exact h.line alike text
  | lines text => exact h.lineAll alike _
  | blank => exact h.blank
  | block opening closing body =>
    obtain ⟨hopening, hbody⟩ := List.forall_mem_cons.1 hopen
    obtain ⟨added, hadded, hinner⟩ := h.enter alike opening
    have hfloor := isFloor_indented hopening depth
    exact (Step.paired_runAll body hbody hfloor hfloor rfl hinner).leave hadded closing
  | chain opening closing body =>
    obtain ⟨hopening, hbody⟩ := List.forall_mem_cons.1 hopen
    have hsame := h.continues_eq hf hg
    rw [Step.run, Step.run]
    by_cases hcontinues : w.continues
    · obtain ⟨added, hadded, hinner⟩ :=
        (h.unwritten hg hcontinues).enter alike ("\x7d " ++ opening)
      have hbrace : ("\x7d " ++ opening).toList.head? ≠ some '\t' := by simp
      have hfloor := isFloor_indented hbrace depth
      rw [enterChain_of_continues hcontinues, enterChain_of_continues (hsame ▸ hcontinues)]
      exact (Step.paired_runAll body hbody hfloor hfloor rfl hinner).leave hadded closing
    · obtain ⟨added, hadded, hinner⟩ := h.enter alike opening
      have hfloor := isFloor_indented hopening depth
      rw [enterChain_of_not_continues hcontinues, enterChain_of_not_continues (hsame ▸ hcontinues)]
      exact (Step.paired_runAll body hbody hfloor hfloor rfl hinner).leave hadded closing
  | append steps => exact h.append alike _

/-- Steps write the same lines above two floors that are alike. -/
theorem Step.paired_runAll (steps : List Step) (hopen : FlushLeft (Step.openingsAll steps))
    {depth : ℕ} {f g : String} {below below' : List String} {v w : Writer}
    (hf : IsFloor depth f) (hg : IsFloor depth g) (alike : refusesBlank f = refusesBlank g)
    (h : Paired depth f g below below' v w) :
    Paired depth f g below below' (Step.runAll steps v) (Step.runAll steps w) := by
  cases steps with
  | nil => exact h
  | cons step steps =>
    obtain ⟨hstep, hsteps⟩ := List.forall_mem_append.1 hopen
    exact Step.paired_runAll steps hsteps hf hg alike (Step.paired_run step hstep hf hg alike h)

end

/-- What a body and a closing line add below two opening lines that are alike. -/
theorem Step.written_bodies {body : List Step} (hbody : FlushLeft (Step.openingsAll body))
    {depth : ℕ} {f g : String} {below below' : List String} {v w : Writer}
    (hf : IsFloor (depth + 1) f) (hg : IsFloor (depth + 1) g)
    (alike : refusesBlank f = refusesBlank g) (hv : Stands (depth + 1) [] f below v)
    (hw : Stands (depth + 1) [] g below' w) (hpending : v.pendingBlank = w.pendingBlank)
    (closing : String) :
    ∃ lines, (∀ l ∈ lines, IsDeep (depth + 1) l) ∧
      ((Step.runAll body v).leave closing).written.reverse =
        below.reverse ++ [f] ++ lines ++ [indented depth closing] ∧
      ((Step.runAll body w).leave closing).written.reverse =
        below'.reverse ++ [g] ++ lines ++ [indented depth closing] := by
  have hstart : Paired (depth + 1) f g below below' v w := ⟨hpending, [], by simp, hv, hw⟩
  obtain ⟨-, added, hdeep, hv', hw'⟩ := Step.paired_runAll body hbody hf hg alike hstart
  refine ⟨added.reverse, fun l hl => hdeep l (List.mem_reverse.1 hl), ?_, ?_⟩
  · rw [written_leave, hv'.written_eq, hv'.depth_eq]
    simp
  · rw [written_leave, hw'.written_eq, hw'.depth_eq]
    simp

theorem Writer.stands_enter (w : Writer) (opening : String) :
    Stands (w.depth + 1) [] (indented w.depth opening) (w.gap ++ w.written) (w.enter opening) :=
  ⟨written_enter w opening, depth_enter w opening⟩

theorem Writer.stands_enterChain {w : Writer} (h : w.continues) (opening : String) :
    Stands (w.depth + 1) [] (tabs w.depth ++ "\x7d " ++ opening) w.written.tail
      (w.enterChain opening) := by
  have hcalm : w.pendingBlank = false := by simpa using (Bool.and_eq_true_iff.1 h).1
  have hgap : w.unwritten.gap = [] := by simp [gap, unwritten, hcalm]
  have hline : indented w.depth ("\x7d " ++ opening) = tabs w.depth ++ "\x7d " ++ opening := by
    rw [indented_of_ne (by simp), String.append_assoc]
  refine ⟨?_, depth_enterChain w opening⟩
  rw [enterChain_of_continues h, written_enter, hgap, List.nil_append]
  exact congrArg (· :: w.written.tail) hline

/-- A line that continues a brace allows a blank line where the line without the brace does. -/
theorem Writer.refusesBlank_continued {opening : String} (h : opening ≠ "") (depth : ℕ) :
    refusesBlank (indented depth opening) = refusesBlank (tabs depth ++ "\x7d " ++ opening) := by
  have hne : opening.toList ≠ [] := by simpa using h
  rw [refusesBlank_indented, refusesBlank, refusesBlank, String.toList_append,
    List.getLast?_append_of_ne_nil _ hne]

theorem Writer.isFloor_continued (opening : String) (depth : ℕ) :
    IsFloor (depth + 1) (tabs depth ++ "\x7d " ++ opening) := by
  have hbrace : ("\x7d " ++ opening).toList.head? ≠ some '\t' := by simp
  have hfloor := isFloor_indented hbrace depth
  rwa [indented_of_ne (by simp), ← String.append_assoc] at hfloor

/-- Blocks nest. Every run ends at the depth at which it starts and never goes up from depth 0. If
no opening text begins with a tab, a block leaves the lines above it as they are and adds at most one
blank line, its opening line, lines of its body that are empty or deeper, and its closing line. A
chain that takes over no brace is a block. One that does is a block below the lines without the
brace, which its opening line begins with; its body writes the same lines, if the opening text is
not empty. -/
theorem blocks_nest (w : Writer) :
    (∀ steps, Step.runAll? steps w = some (Step.runAll steps w) ∧
      (Step.runAll steps w).depth = w.depth) ∧
    ∀ opening closing body, FlushLeft (opening :: Step.openingsAll body) →
      ∃ blanks lines, (blanks = [] ∨ blanks = [""]) ∧ (∀ l ∈ lines, IsDeep (w.depth + 1) l) ∧
        ((Step.block opening closing body).run w).written.reverse =
          w.written.reverse ++ blanks ++ [indented w.depth opening] ++ lines ++
            [indented w.depth closing] ∧
        (¬w.continues →
          (Step.chain opening closing body).run w = (Step.block opening closing body).run w) ∧
        (w.continues → ∃ lines', (∀ l ∈ lines', IsDeep (w.depth + 1) l) ∧
          (opening ≠ "" → lines' = lines) ∧
          ((Step.chain opening closing body).run w).written.reverse =
            w.written.tail.reverse ++ [tabs w.depth ++ "\x7d " ++ opening] ++ lines' ++
              [indented w.depth closing]) := by
  refine ⟨fun steps => ⟨Step.runAll?_eq_some steps w, Step.depth_runAll steps w⟩, ?_⟩
  intro opening closing body hopen
  obtain ⟨hopening, hbody⟩ := List.forall_mem_cons.1 hopen
  have hfloor := isFloor_indented hopening w.depth
  have hfloor' := isFloor_continued opening w.depth
  have hblock := stands_enter w opening
  have hreverse : (w.gap ++ w.written).reverse = w.written.reverse ++ w.gap := by
    rcases gap_cases w with hgap | hgap <;> simp [hgap]
  obtain ⟨lines, hdeep, hlines, -⟩ :=
    Step.written_bodies hbody hfloor hfloor rfl hblock hblock rfl closing
  refine ⟨w.gap, lines, gap_cases w, hdeep, ?_, fun hnot => ?_, fun hcontinues => ?_⟩
  · rw [Step.run, hlines, hreverse]
  · rw [Step.run, Step.run, enterChain_of_not_continues hnot]
  have hchain := stands_enterChain hcontinues opening
  rw [Step.run]
  by_cases hempty : opening = ""
  · obtain ⟨lines', hdeep', hlines', -⟩ :=
      Step.written_bodies hbody hfloor' hfloor' rfl hchain hchain rfl closing
    exact ⟨lines', hdeep', fun hne => absurd hempty hne, hlines'⟩
  · have hcalm : (w.enter opening).pendingBlank = (w.enterChain opening).pendingBlank := by
      rw [enterChain_of_continues hcontinues, pendingBlank_enter, pendingBlank_enter]
    obtain ⟨both, hdeep', hleft, hright⟩ := Step.written_bodies hbody hfloor hfloor'
      (refusesBlank_continued hempty w.depth) hblock hchain hcalm closing
    have hsame : both = lines := by
      rw [hlines] at hleft
      simpa using hleft.symm
    exact ⟨both, hdeep', fun _ => hsame, hright⟩

/-- A writer inside a block, right after a branch. -/
def afterBranch : Writer :=
  ⟨["\t\x7d", "\t\ta();", "\tif (x) \x7b", "f() \x7b"], 1, false⟩

/-- A body that begins with a blank line and a chain. -/
def otherBranch : List Step :=
  [.blank, .chain "if (y) \x7b" "\x7d" [.line "b();"], .blank, .line "c();"]

theorem blocks_nest_afterBranch :
    FlushLeft ("else \x7b" :: Step.openingsAll otherBranch) ∧ afterBranch.continues ∧
      ∃ lines, (∀ l ∈ lines, IsDeep 2 l) ∧
        ((Step.chain "else \x7b" "\x7d" otherBranch).run afterBranch).written.reverse =
          ["f() \x7b", "\tif (x) \x7b", "\t\ta();", "\t\x7d else \x7b"] ++ lines ++ ["\t\x7d"] := by
  have hopen : FlushLeft ("else \x7b" :: Step.openingsAll otherBranch) := by decide
  have hcontinues : afterBranch.continues := by decide
  obtain ⟨-, hblocks⟩ := blocks_nest afterBranch
  obtain ⟨_, _, -, -, -, -, hchain⟩ := hblocks "else \x7b" "\x7d" otherBranch hopen
  obtain ⟨lines, hdeep, -, hlines⟩ := hchain hcontinues
  have hopening : tabs afterBranch.depth ++ "\x7d " ++ "else \x7b" = "\t\x7d else \x7b" := by decide
  have hclosing : indented afterBranch.depth "\x7d" = "\t\x7d" := by decide
  rw [hopening, hclosing] at hlines
  exact ⟨hopen, hcontinues, lines, hdeep, hlines⟩

end HttpStubs.Code

import Mathlib.Data.List.Basic
import HttpStubs.Proofs.LineBreaks
import HttpStubs.Proofs.LineLists

/-!
# Where doc comments end

A comment ends at the first end mark behind its start, so what is written into it must not hold one,
neither in a text nor where two texts meet. Texts that are `Sealed` hold none and cannot be half of
one, and stay so when they are put together. All that stands between the start and the end of a
comment is sealed, whatever its lines hold (`isComment_of_lines`).
-/

namespace HttpStubs.Code

/-! ## End marks -/

/-- How often `*/` occurs. -/
def commentEnds : List Char → ℕ
  | [] => 0
  | c :: cs => (if c = '*' ∧ cs.head? = some '/' then 1 else 0) + commentEnds cs

theorem commentEnds_append {a b : List Char} (h : a.getLast? = some '*' → b.head? ≠ some '/') :
    commentEnds (a ++ b) = commentEnds a + commentEnds b := by
  induction a with
  | nil => simp [commentEnds]
  | cons c cs ih =>
    cases cs with
    | nil =>
      -- Only here does a pair of characters reach over from `a` to `b`.
      have hseam : ¬(c = '*' ∧ b.head? = some '/') := by
        rintro ⟨rfl, hb⟩
        exact h rfl hb
      simp [commentEnds, hseam]
    | cons d ds =>
      have hlast : (c :: d :: ds).getLast? = (d :: ds).getLast? := by simp
      rw [List.cons_append, commentEnds, commentEnds, ih (hlast ▸ h), ← Nat.add_assoc]
      rfl

theorem commentEnds_eq_zero {cs : List Char} (h : '*' ∉ cs) : commentEnds cs = 0 := by
  induction cs with
  | nil => rfl
  | cons c cs ih =>
    rw [List.mem_cons, not_or] at h
    rw [commentEnds, ih h.2, if_neg fun hc => h.1 hc.1.symm]

theorem DocComment.head?_escapeChars (cs : List Char) : (escapeChars cs).head? = cs.head? := by
  fun_cases escapeChars cs <;> rfl

theorem DocComment.commentEnds_escapeChars (cs : List Char) : commentEnds (escapeChars cs) = 0 := by
  fun_induction escapeChars cs with
  | case1 => rfl
  | case2 cs ih =>
    -- The backslash keeps the two characters apart.
    simp [commentEnds, ih]
  | case3 c cs hapart ih =>
    rw [commentEnds, ih, head?_escapeChars, if_neg]
    rintro ⟨hc, hhead⟩
    obtain ⟨ds, hds⟩ := List.head?_eq_some_iff.1 hhead
    exact hapart ds hc hds

/-! ## Sealed texts -/

/-- The text holds no end mark, and none can arise where it meets another such text. -/
structure Sealed (text : String) : Prop where
  noEnd : commentEnds text.toList = 0
  noSlash : text.toList.head? ≠ some '/'
  noStar : text.toList.getLast? ≠ some '*'

namespace Sealed

theorem append {a b : String} (ha : Sealed a) (hb : Sealed b) : Sealed (a ++ b) where
  noEnd := by
    rw [String.toList_append, commentEnds_append fun h => absurd h ha.noStar, ha.noEnd, hb.noEnd]
  noSlash := by
    rw [String.toList_append, List.head?_append, ne_eq, Option.or_eq_some_iff]
    rintro (h | h)
    · exact ha.noSlash h
    · exact hb.noSlash h.2
  noStar := by
    rw [String.toList_append, List.getLast?_append, ne_eq, Option.or_eq_some_iff]
    rintro (h | h)
    · exact hb.noStar h
    · exact ha.noStar h.2

/-- A text without end marks is sealed by the texts on either side. -/
theorem around {a b : String} (ha : Sealed a) (hb : Sealed b) (hane : a ≠ "") (hbne : b ≠ "")
    {text : String} (h : commentEnds text.toList = 0) : Sealed (a ++ text ++ b) where
  noEnd := by
    rw [String.toList_append, commentEnds_append fun _ => hb.noSlash, String.toList_append,
      commentEnds_append fun hstar => absurd hstar ha.noStar, ha.noEnd, h, hb.noEnd]
  noSlash := by
    rw [String.append_assoc, String.toList_append,
      List.head?_append_of_ne_nil _ (by simpa using hane)]
    exact ha.noSlash
  noStar := by
    rw [String.toList_append, List.getLast?_append_of_ne_nil _ (by simpa using hbne)]
    exact hb.noStar

end Sealed

theorem sealed_tabs (depth : ℕ) : Sealed (Writer.tabs depth) := by
  have hstar : IsForeign '*' := ⟨by decide, by decide, by decide⟩
  have hslash : IsForeign '/' := ⟨by decide, by decide, by decide⟩
  exact ⟨commentEnds_eq_zero (Writer.not_mem_tabs hstar depth),
    fun h => Writer.not_mem_tabs hslash depth (List.mem_of_mem_head? h),
    fun h => Writer.not_mem_tabs hstar depth (List.mem_of_mem_getLast? h)⟩

theorem sealed_newline (newline : Text.Newline) : Sealed newline.text := by
  cases newline <;> exact ⟨by decide, by decide, by decide⟩

/-! ## The text of a comment -/

namespace Writer

theorem textOf_append (newline : Text.Newline) (ls more : List String) :
    textOf newline (ls ++ more) = textOf newline ls ++ textOf newline more := by
  simp [textOf]

theorem text_eq_textOf (w : Writer) (newline : Text.Newline) :
    w.text newline = textOf newline w.written.reverse :=
  rfl

/-- A pending blank line is written as an empty line or not at all. -/
theorem text_flushBlank (w : Writer) (newline : Text.Newline) :
    ∃ blank, w.flushBlank.text newline = w.text newline ++ blank ∧
      (blank = "" ∨ w.pendingBlank = true ∧ blank = newline.text) := by
  cases hpending : w.pendingBlank with
  | false => exact ⟨"", by rw [Step.flushBlank_of_calm hpending, String.append_empty], .inl rfl⟩
  | true =>
    rcases written_flushBlank w with h | h
    · exact ⟨"", by rw [text_eq_textOf, h, text_eq_textOf, String.append_empty], .inl rfl⟩
    · refine ⟨newline.text, ?_, .inr ⟨rfl, rfl⟩⟩
      rw [text_eq_textOf, h, List.reverse_cons, textOf_append, text_eq_textOf]
      simp [textOf]

end Writer

theorem sealed_textOf {newline : Text.Newline} {ls : List String}
    (h : ∀ l ∈ ls, Sealed (l ++ newline.text)) : Sealed (Writer.textOf newline ls) := by
  induction ls with
  | nil => exact ⟨rfl, nofun, nofun⟩
  | cons l ls ih =>
    rw [List.forall_mem_cons] at h
    rw [Writer.textOf_cons]
    exact h.1.append (ih h.2)

/-- The text of one comment: indentation, start, end and line end, with no other end mark. -/
structure IsComment (depth : ℕ) (newline : Text.Newline) (text : String) : Prop where
  framed : ∃ inner, text = Writer.tabs depth ++ "/**" ++ inner ++ "*/" ++ newline.text
  endsOnce : commentEnds text.toList = 1

theorem isComment_of_sealed {inner : String} (h : Sealed inner) (depth : ℕ)
    (newline : Text.Newline) :
    IsComment depth newline (Writer.tabs depth ++ "/**" ++ inner ++ "*/" ++ newline.text) := by
  refine ⟨⟨inner, rfl⟩, ?_⟩
  have hnewline := sealed_newline newline
  have htabs := sealed_tabs depth
  have hclosing : commentEnds ("*/" ++ newline.text).toList = 1 := by
    rw [String.toList_append, commentEnds_append fun _ => hnewline.noSlash, hnewline.noEnd]
    rfl
  have hinner : commentEnds (inner ++ ("*/" ++ newline.text)).toList = 1 := by
    rw [String.toList_append, commentEnds_append fun hstar => absurd hstar h.noStar, h.noEnd,
      hclosing]
  -- The start ends in a star, so no slash may follow it, even if nothing stands inside.
  have hhead : (inner ++ ("*/" ++ newline.text)).toList.head? ≠ some '/' := by
    rw [String.toList_append, List.head?_append, ne_eq, Option.or_eq_some_iff]
    rintro (hslash | hslash)
    · exact h.noSlash hslash
    · exact absurd hslash.2 (by simp)
  rw [String.append_assoc, String.append_assoc, String.append_assoc, String.toList_append,
    commentEnds_append fun hstar => absurd hstar htabs.noStar, htabs.noEnd, String.toList_append,
    commentEnds_append fun _ => hhead, hinner]
  rfl

namespace DocComment

/-- The lines of a comment as they are written. -/
def shownLines : List String → List String
  | [] => []
  | [line] => ["/** " ++ escape line ++ " */"]
  | lines => "/**" :: lines.map (" * " ++ escape ·) ++ [" */"]

theorem steps_eq (comment : DocComment) : comment.steps = (shownLines comment.lines).map .line := by
  obtain ⟨lines⟩ := comment
  unfold steps shownLines
  split <;> simp_all

theorem commentEnds_escape (line : String) : commentEnds (escape line).toList = 0 := by
  rw [escape, String.toList_ofList, commentEnds_escapeChars]

theorem isComment_one (line : String) (depth : ℕ) (newline : Text.Newline) :
    IsComment depth newline (Writer.textOf newline
      [Writer.indented depth ("/** " ++ escape line ++ " */")]) := by
  have hblank : Sealed " " := ⟨by decide, by decide, by decide⟩
  have htext : Writer.textOf newline [Writer.indented depth ("/** " ++ escape line ++ " */")] =
      Writer.tabs depth ++ "/**" ++ (" " ++ escape line ++ " ") ++ "*/" ++ newline.text := by
    rw [Writer.indented_of_ne (by simp), Writer.textOf_cons, ← String.toList_inj]
    simp [Writer.textOf]
  rw [htext]
  exact isComment_of_sealed
    (hblank.around hblank (by decide) (by decide) (commentEnds_escape line)) depth newline

theorem sealed_inner (depth : ℕ) (newline : Text.Newline) (line : String) :
    Sealed (Writer.indented depth (" * " ++ escape line) ++ newline.text) := by
  have hbullet : Sealed " * " := ⟨by decide, by decide, by decide⟩
  have hnewline : newline.text ≠ "" := by cases newline <;> decide
  rw [Writer.indented_of_ne (by simp), String.append_assoc]
  exact (sealed_tabs depth).append
    (hbullet.around (sealed_newline newline) (by decide) hnewline (commentEnds_escape line))

theorem isComment_many (lines : List String) (depth : ℕ) (newline : Text.Newline) :
    IsComment depth newline (Writer.textOf newline
      (("/**" :: lines.map (" * " ++ escape ·) ++ [" */"]).map (Writer.indented depth))) := by
  let inner := Writer.textOf newline ((lines.map (" * " ++ escape ·)).map (Writer.indented depth))
  have hinner : Sealed inner := by
    refine sealed_textOf fun l hl => ?_
    obtain ⟨_, hline, rfl⟩ := List.mem_map.1 hl
    obtain ⟨line, -, rfl⟩ := List.mem_map.1 hline
    exact sealed_inner depth newline line
  have hblank : Sealed " " := ⟨by decide, by decide, by decide⟩
  have htext : Writer.textOf newline
      (("/**" :: lines.map (" * " ++ escape ·) ++ [" */"]).map (Writer.indented depth)) =
        Writer.tabs depth ++ "/**" ++ (newline.text ++ (inner ++ (Writer.tabs depth ++ " "))) ++
          "*/" ++ newline.text := by
    rw [List.map_append, List.map_cons, Writer.textOf_append, Writer.textOf_cons,
      List.map_singleton, Writer.textOf_cons, Writer.indented_of_ne (by simp),
      Writer.indented_of_ne (by simp), ← String.toList_inj]
    simp [inner, Writer.textOf]
  rw [htext]
  exact isComment_of_sealed ((sealed_newline newline).append
    (hinner.append ((sealed_tabs depth).append hblank))) depth newline

/-- The lines of a comment, at any depth and with either line end, are one comment. -/
theorem isComment_of_lines {lines : List String} (h : lines ≠ []) (depth : ℕ)
    (newline : Text.Newline) :
    IsComment depth newline
      (Writer.textOf newline ((shownLines lines).map (Writer.indented depth))) := by
  unfold shownLines
  split
  next => exact absurd rfl h
  next line => exact isComment_one line depth newline
  next => exact isComment_many lines depth newline

theorem shownLines_eq_nil_iff {lines : List String} : shownLines lines = [] ↔ lines = [] := by
  unfold shownLines
  split <;> simp_all

/-- Below other lines, a comment adds its own lines at the depth of the place. -/
theorem text_runAll_steps {comment : DocComment} (h : comment.lines ≠ []) (w : Writer)
    (newline : Text.Newline) :
    (Step.runAll comment.steps w).text newline = w.flushBlank.text newline ++
      Writer.textOf newline ((shownLines comment.lines).map (Writer.indented w.depth)) := by
  have hstarts : Step.startsLine comment.steps := by
    rw [steps_eq]
    cases hlines : shownLines comment.lines with
    | nil => exact absurd (shownLines_eq_nil_iff.1 hlines) h
    | cons l ls => rfl
  have hown : (Step.runAll comment.steps {}).written.reverse = shownLines comment.lines := by
    rw [steps_eq]
    exact Step.lineList_map_line _
  rw [Writer.text_eq_textOf, Step.written_of_startsLine hstarts w, List.reverse_append,
    ← List.map_reverse, hown, Writer.textOf_append, ← Writer.text_eq_textOf]

end DocComment

/-- What a comment adds to the text of a writer, after the blank line that was pending, is nothing,
or one comment: the indentation, the start, and the only end mark right before the line end. This
holds of every text in its lines, at every place and with either line end. -/
theorem comment_ends_once (comment : DocComment) (w : Writer) (newline : Text.Newline) :
    ∃ blank added,
      (Step.runAll comment.steps w).text newline = w.text newline ++ blank ++ added ∧
        (blank = "" ∨ w.pendingBlank = true ∧ blank = newline.text) ∧
        (comment.lines = [] ∧ blank = "" ∧ added = "" ∨
          comment.lines ≠ [] ∧ IsComment w.depth newline added) := by
  by_cases h : comment.lines = []
  · refine ⟨"", "", ?_, .inl rfl, .inl ⟨h, rfl, rfl⟩⟩
    rw [DocComment.steps_eq, h]
    simp [DocComment.shownLines, Step.runAll]
  · obtain ⟨blank, hflush, hblank⟩ := w.text_flushBlank newline
    refine ⟨blank, _, ?_, hblank, .inr ⟨h, DocComment.isComment_of_lines h w.depth newline⟩⟩
    rw [DocComment.text_runAll_steps h, hflush]

end HttpStubs.Code

import Mathlib.Data.List.Basic
import HttpStubs.Code.DocComment
import HttpStubs.Code.Import
import HttpStubs.Code.TypeExpr
import HttpStubs.Proofs.LiteralReading
import HttpStubs.Proofs.WrittenLines

/-!
# Line feeds in pieces of code

Which pieces of code can hold a line feed. Literals, property keys and accesses, URI variables and
the lines of a summary never do. A message on an obsolete element and a name that is written as it
is do exactly if they hold one in the document.
-/

namespace HttpStubs

/-! ## Letter case -/

namespace Text

theorem eq_ten_of_ofNat {n : ℕ} (h : Char.ofNat n = '\n') : n = 10 := by
  by_cases hvalid : n.isValidChar
  · rw [Char.ofNat, dif_pos hvalid] at h
    exact congrArg Char.toNat h
  · rw [Char.ofNat, dif_neg hvalid] at h
    exact absurd h (by decide)

theorem upperExpansions_free : ∀ p ∈ upperExpansions, 10 ∉ p.2 := by
  decide

theorem upperRuns_free : ∀ r ∈ upperRuns, 10 < r.first + r.offset := by
  decide +kernel

/-- No other character has a line feed in its upper case. -/
theorem mem_toUpper_iff {c : Char} : '\n' ∈ toUpper c ↔ c = '\n' := by
  refine ⟨fun h => ?_, fun h => by rw [h]; decide⟩
  unfold toUpper mapCase at h
  split at h
  next ns hns =>
    obtain ⟨l₁, l₂, htable, -⟩ := List.lookup_eq_some_iff.1 hns
    obtain ⟨n, hn, heq⟩ := List.mem_map.1 h
    have hfree := upperExpansions_free (c.toNat, ns) (by simp [htable])
    exact absurd (eq_ten_of_ofNat heq ▸ hn) hfree
  next =>
    split at h
    next n hn =>
      obtain ⟨r, hr, hmap⟩ := List.exists_of_findSome?_eq_some hn
      have hten : n = 10 := eq_ten_of_ofNat (List.mem_singleton.1 h).symm
      have hfree := upperRuns_free r hr
      unfold Run.map? at hmap
      split_ifs at hmap with hin
      simp only [Bool.and_eq_true, decide_eq_true_eq, Option.some.injEq] at hin hmap
      omega
    next => exact (List.mem_singleton.1 h).symm

theorem mem_mapFirst_toUpper_iff {cs : List Char} : '\n' ∈ mapFirst toUpper cs ↔ '\n' ∈ cs := by
  cases cs with
  | nil => rfl
  | cons c cs => simp [mapFirst, mem_toUpper_iff, eq_comm]

@[simp] theorem lf_mem_capitalize {s : String} :
    '\n' ∈ (capitalize s).toList ↔ '\n' ∈ s.toList := by
  rw [capitalize, String.toList_ofList, mem_mapFirst_toUpper_iff]

/-! ## Lines -/

theorem lf_not_mem_linesFrom {line cs : List Char} (hline : '\n' ∉ line) :
    ¬Code.Holds '\n' (linesFrom line cs) := by
  fun_induction linesFrom line cs with
  | case1 line hempty => simp
  | case2 line hempty => simpa using hline
  | case3 line cs ih => simpa [hline] using ih (by simp)
  | case4 line cs ih => simpa [hline] using ih (by simp)
  | case5 line c cs hlf hcrlf ih =>
    refine ih ?_
    simp only [List.mem_cons, not_or]
    exact ⟨fun h => hlf h.symm, hline⟩

theorem lf_not_mem_lines (s : String) : ¬Code.Holds '\n' (lines s) :=
  lf_not_mem_linesFrom (by simp)

theorem mem_of_mem_trim {c : Char} {s : String} (h : c ∈ (trim s).toList) : c ∈ s.toList := by
  rw [trim, String.toList_ofList, trimChars, List.mem_reverse] at h
  have h := (List.dropWhile_sublist isBlank).mem h
  exact (List.dropWhile_sublist isBlank).mem (List.mem_reverse.1 h)

end Text

namespace Code

/-! ## Literals and names -/

@[simp] theorem lf_not_mem_literal (s : String) : '\n' ∉ (literal s).toList :=
  not_mem_literal (.inl rfl) s

theorem lf_not_mem_of_isBareName {s : String} (h : isBareName s) : '\n' ∉ s.toList := by
  unfold isBareName at h
  intro hmem
  split at h
  next => cases h
  next c cs hcs =>
    rw [hcs] at hmem
    simp only [Bool.and_eq_true, List.all_eq_true] at h
    rcases List.mem_cons.1 hmem with rfl | hmem
    · exact absurd h.1 (by decide)
    · exact absurd (h.2 _ hmem) (by decide)

@[simp] theorem lf_not_mem_propertyKey (name : String) : '\n' ∉ (propertyKey name).toList := by
  unfold propertyKey
  split_ifs with h
  · exact lf_not_mem_of_isBareName h
  · exact lf_not_mem_literal name

@[simp] theorem lf_mem_propertyAccess {object name : String} :
    '\n' ∈ (propertyAccess object name).toList ↔ '\n' ∈ object.toList := by
  unfold propertyAccess
  split_ifs with h
  · simp [lf_not_mem_of_isBareName h]
  · simp

theorem mem_intercalate_iff {c : Char} {between : List Char} (hc : c ∉ between)
    {texts : List String} : c ∈ between.intercalate (texts.map String.toList) ↔ Holds c texts := by
  induction texts with
  | nil => simp
  | cons text texts ih =>
    cases texts with
    | nil => simp
    | cons next texts => simp_all [List.intercalate_cons_cons]

@[simp] theorem lf_mem_braced {entries : List String} :
    '\n' ∈ (braced entries).toList ↔ Holds '\n' entries := by
  simp [braced, mem_intercalate_iff]

theorem nameChar_of_mem_nameParts {part cs : List Char} (hpart : part.all isNameChar) :
    ∀ p ∈ nameParts part cs, p.all isNameChar := by
  fun_induction nameParts part cs with
  | case1 part => simpa using hpart
  | case2 part c cs hc ih => exact ih (by simpa [hc] using hpart)
  | case3 part c cs hc ih =>
    rw [List.forall_mem_cons]
    exact ⟨by simpa using hpart, ih rfl⟩

@[simp] theorem lf_not_mem_pascalName (s : String) : '\n' ∉ (pascalName s).toList := by
  rw [pascalName, String.toList_ofList, List.mem_flatMap]
  rintro ⟨part, hpart, hmem⟩
  have hchars : part.all isNameChar := nameChar_of_mem_nameParts rfl part hpart
  rw [List.all_eq_true] at hchars
  exact absurd (hchars '\n' (Text.mem_mapFirst_toUpper_iff.1 hmem)) (by decide)

@[simp] theorem lf_not_mem_toDigits (n : ℕ) : '\n' ∉ Nat.toDigits 10 n := by
  intro h
  exact absurd (Nat.isDigit_of_mem_toDigits (by decide) (by decide) h) (by decide)

theorem lf_mem_escapeTemplateChars {cs : List Char} :
    '\n' ∈ escapeTemplateChars cs ↔ '\n' ∈ cs := by
  fun_induction escapeTemplateChars cs <;> simp_all

@[simp] theorem lf_mem_escapeTemplate {s : String} :
    '\n' ∈ (escapeTemplate s).toList ↔ '\n' ∈ s.toList := by
  rw [escapeTemplate, String.toList_ofList, lf_mem_escapeTemplateChars]

/-! ## Types and imports -/

mutual

theorem TypeExpr.lf_mem_text : (e : TypeExpr) →
    ('\n' ∈ e.text.toList ↔ Holds '\n' e.references)
  | .primitive p => by cases p <;> simp [text, references, Primitive.text]
  | .array element => by
    have ih := TypeExpr.lf_mem_text element
    simp only [text, references, String.toList_append, List.mem_append, ← ih]
    unfold parenthesize
    split <;> simp
  | .union members => by
    simp [text, references, mem_intercalate_iff, TypeExpr.holds_texts members]
  | .record key value => by
    simp [text, references, TypeExpr.lf_mem_text key, TypeExpr.lf_mem_text value]
  | .generic name arguments => by
    simp [text, references, mem_intercalate_iff, TypeExpr.holds_texts arguments]
  | .ref name => by simp [text, references]

theorem TypeExpr.holds_texts : (es : List TypeExpr) →
    (Holds '\n' (texts es) ↔ Holds '\n' (referencesAll es))
  | [] => by simp [texts, referencesAll]
  | e :: es => by simp [texts, referencesAll, TypeExpr.lf_mem_text e, TypeExpr.holds_texts es]

end

/-- The names that a declaration binds. -/
def Import.names (i : Import) : List String :=
  i.default?.toList ++ i.items

theorem Import.lf_mem_bindings {i : Import} :
    '\n' ∈ i.bindings.toList ↔ Holds '\n' i.names := by
  rw [bindings, String.toList_intercalate, mem_intercalate_iff (by simp), names, holds_append,
    holds_append]
  cases i.items <;> simp

@[simp] theorem Import.lf_mem_text {i : Import} : '\n' ∈ i.text.toList ↔ Holds '\n' i.names := by
  unfold text
  cases i.typeOnly <;> simp [Import.lf_mem_bindings]

/-! ## Doc comments -/

namespace DocComment

theorem lf_mem_escapeChars {cs : List Char} : '\n' ∈ escapeChars cs ↔ '\n' ∈ cs := by
  fun_induction escapeChars cs <;> simp_all

@[simp] theorem lf_mem_escape {s : String} : '\n' ∈ (escape s).toList ↔ '\n' ∈ s.toList := by
  rw [escape, String.toList_ofList, lf_mem_escapeChars]

theorem holds_steps (comment : DocComment) :
    Holds '\n' (Step.textsAll comment.steps) ↔ Holds '\n' comment.lines := by
  unfold steps
  split
  · simp
  · simp [Step.texts]
  · simp [Step.texts, Holds]

theorem not_holds_textLines (text : String) : ¬Holds '\n' (textLines text) := by
  rintro ⟨l, hl, hlf⟩
  obtain ⟨line, hline, rfl⟩ := List.mem_map.1 (List.mem_filter.1 hl).1
  exact Text.lf_not_mem_lines text ⟨line, hline, Text.mem_of_mem_trim hlf⟩

/-- The message on an obsolete element as its comment shows it. -/
def shownMessage (docs : Service.Docs) : List String :=
  if docs.obsolete then (docs.obsoleteMessage.map Text.trim).toList else []

theorem lf_mem_deprecation {message : Option String} :
    '\n' ∈ (deprecation message).toList ↔ Holds '\n' (message.map Text.trim).toList := by
  unfold deprecation
  split
  next h => simp [h]
  next h => simp [h]
  next text _ h => simp [h]

theorem holds_ofDocs {docs : Service.Docs} :
    Holds '\n' (ofDocs docs).lines ↔ Holds '\n' (shownMessage docs) := by
  have hsummary : ¬Holds '\n' ((docs.summary.map textLines).getD []) := by
    cases docs.summary with
    | none => simp
    | some summary => exact not_holds_textLines summary
  unfold ofDocs shownMessage
  cases docs.obsolete <;> simp [hsummary, lf_mem_deprecation]

theorem holds_ofDocsOr {docs : Service.Docs} {fallback : String} :
    Holds '\n' (ofDocsOr docs fallback).lines ↔
      (lacksSummary docs ∧ '\n' ∈ fallback.toList) ∨ Holds '\n' (shownMessage docs) := by
  unfold ofDocsOr
  split_ifs with h <;> simp [h, holds_ofDocs]

end DocComment

end Code

end HttpStubs

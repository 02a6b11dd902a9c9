import HttpStubs.Api.PathTemplate
import HttpStubs.Proofs.Traversal

/-!
# The grammar of path templates

`Template fields cs parts` says that the characters `cs` are a path template with the parts `parts`:
texts that are not empty, hold no brace and do not touch each other, and placeholders that are
identifiers and stand for the first path field of their name. Whatever `parse` accepts is such a
template, in which each path field is captured (`parse_eq_ok_iff`, `template_of_parseText`).
-/

namespace HttpStubs.Api.PathTemplate

/-- Whether a character is a brace, which no text and no placeholder holds. -/
def isBrace (c : Char) : Bool :=
  c = '\x7b' || c = '\x7d'

/-- Whether the first part of a path is fixed text. -/
def startsWithText : List PathPart → Bool
  | .text _ :: _ => true
  | _ => false

/-- The characters of a path template and its parts. -/
inductive Template (fields : List Slot) : List Char → List PathPart → Prop
  | nil : Template fields [] []
  | text {t cs : List Char} {parts : List PathPart} (nonempty : t ≠ [])
      (plain : ∀ c ∈ t, isBrace c = false) (apart : startsWithText parts = false)
      (rest : Template fields cs parts) :
      Template fields (t ++ cs) (.text (String.ofList t) :: parts)
  | capture {s : Slot} {cs : List Char} {parts : List PathPart}
      (identifier : isIdentifier s.name.toList) (bound : fields.find? (·.name == s.name) = some s)
      (rest : Template fields cs parts) :
      Template fields ('\x7b' :: s.name.toList ++ '\x7d' :: cs) (.capture s :: parts)

variable {fields : List Slot}

theorem Template.identifier_of_mem {cs : List Char} {parts : List PathPart}
    (h : Template fields cs parts) {s : Slot} (hs : .capture s ∈ parts) :
    isIdentifier s.name.toList := by
  induction h with
  | nil => cases hs
  | text _ _ _ _ ih => exact ih (by simpa using hs)
  | capture identifier _ _ ih =>
    rcases List.mem_cons.1 hs with heq | hs
    · cases heq
      exact identifier
    · exact ih hs

theorem Template.mem_of_capture_mem {cs : List Char} {parts : List PathPart}
    (h : Template fields cs parts) {s : Slot} (hs : .capture s ∈ parts) : s ∈ fields := by
  induction h with
  | nil => cases hs
  | text _ _ _ _ ih => exact ih (by simpa using hs)
  | capture _ bound _ ih =>
    rcases List.mem_cons.1 hs with heq | hs
    · cases heq
      exact List.mem_of_find?_eq_some bound
    · exact ih hs

theorem capture_eq_ok {name : List Char} {s : Slot} (h : capture fields name = .ok s) :
    isIdentifier name ∧ s.name.toList = name ∧ fields.find? (·.name == s.name) = some s := by
  unfold capture at h
  split_ifs at h with hempty hident
  split at h
  next slot hfind =>
    obtain rfl : slot = s := Except.ok.inj h
    have hname : slot.name = String.ofList name := by simpa using List.find?_some hfind
    refine ⟨by simpa using hident, by rw [hname, String.toList_ofList], ?_⟩
    rwa [hname]
  next => cases h

/-- Text read so far, in front of parts that start with a capture or with nothing. -/
theorem template_textPart {t cs : List Char} {parts : List PathPart}
    (plain : ∀ c ∈ t, isBrace c = false) (apart : startsWithText parts = false)
    (rest : Template fields cs parts) : Template fields (t ++ cs) (textPart t ++ parts) := by
  unfold textPart
  split_ifs with hempty
  · rw [List.isEmpty_iff.1 hempty]
    exact rest
  · exact .text (by simpa using hempty) plain apart rest

/-- The two readers, by induction on the characters that are left: the text or the name read so far
stands in front of them. -/
theorem template_of_parse (cs : List Char) :
    (∀ text parts, (∀ c ∈ text, isBrace c = false) → parseText fields text cs = .ok parts →
      Template fields (text.reverse ++ cs) parts) ∧
    (∀ name parts, parseName fields name cs = .ok parts →
      Template fields ('\x7b' :: name.reverse ++ cs) parts ∧ startsWithText parts = false) := by
  induction cs with
  | nil =>
    refine ⟨fun text parts plain h => ?_, fun name parts h => by simp [parseName] at h⟩
    obtain rfl : textPart text.reverse = parts := by simpa [parseText] using h
    simpa using template_textPart (by simpa using plain) rfl (Template.nil : Template fields [] [])
  | cons c cs ih =>
    refine ⟨fun text parts plain h => ?_, fun name parts h => ?_⟩
    · unfold parseText at h
      split_ifs at h with hclose hopen
      · obtain ⟨parts', hname, h⟩ := bind_eq_ok_iff.1 h
        obtain rfl := pure_eq_ok_iff.1 h
        obtain ⟨rest, apart⟩ := ih.2 [] parts' hname
        subst hopen
        exact template_textPart (by simpa using plain) apart rest
      · have plain' : ∀ c' ∈ c :: text, isBrace c' = false := by
          simpa [isBrace, hclose, hopen] using plain
        simpa using ih.1 (c :: text) parts plain' h
    · unfold parseName at h
      split_ifs at h with hopen hclose
      · obtain ⟨s, hs, h⟩ := bind_eq_ok_iff.1 h
        obtain ⟨parts', hparts, h⟩ := bind_eq_ok_iff.1 h
        obtain rfl := pure_eq_ok_iff.1 h
        obtain ⟨identifier, hname, bound⟩ := capture_eq_ok hs
        subst hclose
        rw [← hname] at identifier ⊢
        exact ⟨.capture identifier bound (ih.1 [] parts' (by simp) hparts), rfl⟩
      · simpa using ih.2 (c :: name) parts h

theorem template_of_parseText {path : String} {parts : List PathPart}
    (h : parseText fields [] path.toList = .ok parts) : Template fields path.toList parts :=
  (template_of_parse path.toList).1 [] parts (by simp) h

theorem parse_eq_ok_iff {path : String} {parts : List PathPart} :
    parse fields path = .ok parts ↔
      parseText fields [] path.toList = .ok parts ∧ ∀ f ∈ fields, f.name ∈ captured parts := by
  unfold parse
  rw [bind_eq_ok_iff]
  constructor
  · rintro ⟨parts', hparts, h⟩
    split at h
    next => cases h
    next hnone =>
      obtain rfl : parts' = parts := Except.ok.inj h
      exact ⟨hparts, by simpa using hnone⟩
  · rintro ⟨hparts, hall⟩
    refine ⟨parts, hparts, ?_⟩
    rw [List.find?_eq_none.2 (by simpa using hall)]

theorem mem_captured_iff {parts : List PathPart} {name : String} :
    name ∈ captured parts ↔ ∃ s, .capture s ∈ parts ∧ s.name = name := by
  induction parts with
  | nil => simp [captured]
  | cons part parts ih =>
    cases part with
    | text t => simp [captured, ih]
    | capture s => simp [captured, ih, or_and_right, exists_or, eq_comm]

/-- A path captures the fields that it is read with, and no others. -/
theorem mem_captured_iff_of_parse {path : String} {parts : List PathPart}
    (h : parse fields path = .ok parts) {name : String} :
    name ∈ captured parts ↔ name ∈ fields.map Slot.name := by
  obtain ⟨hparts, hall⟩ := parse_eq_ok_iff.1 h
  rw [List.mem_map]
  constructor
  · intro hname
    obtain ⟨s, hs, rfl⟩ := mem_captured_iff.1 hname
    exact ⟨s, (template_of_parseText hparts).mem_of_capture_mem hs, rfl⟩
  · rintro ⟨s, hs, rfl⟩
    exact hall s hs

theorem identifier_of_parse {path : String} {parts : List PathPart}
    (h : parse fields path = .ok parts) {name : String} (hname : name ∈ fields.map Slot.name) :
    isIdentifier name.toList := by
  obtain ⟨s, hs, rfl⟩ := mem_captured_iff.1 ((mem_captured_iff_of_parse h).2 hname)
  exact (template_of_parseText (parse_eq_ok_iff.1 h).1).identifier_of_mem hs

end HttpStubs.Api.PathTemplate

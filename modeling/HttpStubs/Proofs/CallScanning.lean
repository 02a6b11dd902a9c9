import Mathlib.Data.List.Basic
import HttpStubs.Proofs.LineLists
import HttpStubs.Proofs.UriLiterals

/-!
# Calls in code

`scan` goes through code character by character and notes each name in front of an opening
parenthesis, outside of literals. A text that ends in code (`Calls`) can be followed by another if
no name goes across the border (`Calls.append`), so that the calls of a line are those of its pieces
and the calls of lines those of each of them (`LinesCall.calls_textOf`).
-/

namespace HttpStubs.Code

/-! ## The scanner -/

/-- Where in code a scanner is. -/
inductive Place where
  /-- In code; `word` holds the name that has been read up to here, last character first. -/
  | code (word : List Char)
  | quoted
  | quotedEscape
  | template
  | templateEscape
  /-- In a template, behind a `$`. -/
  | dollar
  /-- In a substitution. -/
  | hole
  /-- Behind something that is not read: a comment or a regular expression, or in a substitution
  anything but a name. -/
  | lost
  deriving DecidableEq, Repr

/-- The place behind a character in the fixed part of a template. -/
def Place.inTemplate (c : Char) : Place :=
  if c = '\\' then .templateEscape
  else if c = '\x60' then .code []
  else if c = '$' then .dollar
  else .template

/-- The place behind one more character. -/
def Place.next : Place → Char → Place
  | .code word, c =>
    if isNameChar c then .code (c :: word)
    else if c = '\x27' then .quoted
    else if c = '\x60' then .template
    else if c = '/' then .lost
    else .code []
  | .quoted, c =>
    if c = '\\' then .quotedEscape else if c = '\x27' then .code [] else .quoted
  | .quotedEscape, _ => .quoted
  | .template, c => .inTemplate c
  | .templateEscape, _ => .template
  | .dollar, c => if c = '\x7b' then .hole else .inTemplate c
  | .hole, c => if isNameChar c then .hole else if c = '\x7d' then .template else .lost
  | .lost, _ => .lost

/-- The name that is called if the character follows. -/
def Place.called : Place → Char → List String
  | .code word, c => if c = '(' ∧ word ≠ [] then [String.ofList word.reverse] else []
  | _, _ => []

/-- The place behind some characters, and the names that are called in them. -/
def scan : Place → List Char → Place × List String
  | p, [] => (p, [])
  | p, c :: cs => ((scan (p.next c) cs).1, p.called c ++ (scan (p.next c) cs).2)

theorem scan_append (p : Place) (cs ds : List Char) :
    scan p (cs ++ ds) =
      ((scan (scan p cs).1 ds).1, (scan p cs).2 ++ (scan (scan p cs).1 ds).2) := by
  induction cs generalizing p with
  | nil => rfl
  | cons c cs ih => simp [scan, ih]

/-- The functions that a text calls, in order, if it ends in code and all of it is read. -/
def readCalls (text : String) : Option (List String) :=
  match scan (.code []) text.toList with
  | (.code _, names) => some names
  | _ => none

example : readCalls "if (!id) \x7b f('g(', x.h(\x60(${i}\x60)); \x7d" = some ["f", "h"] := by
  decide

/-! ## Calls of texts that follow each other -/

/-- All of the text is read, and among the names that it calls, those that satisfy `p` are
`names`. -/
def Calls (p : String → Bool) (text : String) (names : List String) : Prop :=
  (readCalls text).map (List.filter p) = some names

instance (p : String → Bool) (text : String) (names : List String) :
    Decidable (Calls p text names) :=
  inferInstanceAs (Decidable (_ = _))

variable {p : String → Bool}

theorem calls_iff {text : String} {names : List String} :
    Calls p text names ↔
      ∃ word calls, scan (.code []) text.toList = (.code word, calls) ∧ calls.filter p = names := by
  unfold Calls readCalls
  split
  next word calls hscan =>
    rw [Option.map_some, Option.some_inj]
    constructor
    · intro h
      exact ⟨word, calls, hscan, h⟩
    · rintro ⟨word', calls', hscan', h⟩
      rw [hscan, Prod.mk.injEq] at hscan'
      rwa [hscan'.2]
  next q hq =>
    constructor
    · nofun
    · rintro ⟨word, calls, hscan, h⟩
      exact absurd hscan (hq word calls)

/-- No name can go on at the start of the text. -/
def startsApart (text : String) : Bool :=
  text.toList.head?.all fun c => !isNameChar c && c != '('

/-- No name can go on at the end of the text. -/
def endsApart (text : String) : Bool :=
  text.toList.getLast?.any fun c => !isNameChar c

theorem endsApart_append (a : String) {b : String} (h : endsApart b) : endsApart (a ++ b) := by
  unfold endsApart at *
  rw [String.toList_append, List.getLast?_append]
  cases hlast : b.toList.getLast? with
  | none => simp [hlast] at h
  | some c => simpa [hlast] using h

theorem Place.word_of_next {place : Place} {c : Char} {word : List Char} (hc : isNameChar c = false)
    (h : place.next c = .code word) : word = [] := by
  cases place with
  | quotedEscape => cases h
  | templateEscape => cases h
  | lost => cases h
  | _ =>
    simp only [Place.next, Place.inTemplate, hc, Bool.false_eq_true, if_false] at h
    split_ifs at h
    all_goals exact (Place.code.inj h).symm

theorem word_of_endsApart {text : String} {word : List Char} {calls : List String}
    (h : endsApart text) (hscan : scan (.code []) text.toList = (.code word, calls)) :
    word = [] := by
  unfold endsApart at h
  rcases List.eq_nil_or_concat text.toList with hnil | ⟨cs, c, hcs⟩
  · simp [hnil] at h
  · rw [hcs, List.concat_eq_append] at h hscan
    rw [scan_append, Prod.mk.injEq] at hscan
    exact Place.word_of_next (by simpa using h) hscan.1

/-- What has been read of a name does not matter to a text that starts apart from it. -/
theorem scan_of_startsApart {text : String} {word : List Char} {calls : List String}
    (h : startsApart text) (hscan : scan (.code []) text.toList = (.code word, calls))
    (front : List Char) :
    ∃ word', scan (.code front) text.toList = (.code word', calls) := by
  unfold startsApart at h
  cases hcs : text.toList with
  | nil =>
    rw [hcs, scan, Prod.mk.injEq] at hscan
    rw [← hscan.2]
    exact ⟨front, rfl⟩
  | cons c cs =>
    have hc : isNameChar c = false ∧ c ≠ '(' := by simpa [hcs] using h
    have hnext : (Place.code front).next c = (Place.code []).next c := by
      simp [Place.next, hc.1]
    have hcalled : (Place.code front).called c = (Place.code []).called c := by
      simp [Place.called, hc.2]
    rw [hcs] at hscan
    refine ⟨word, ?_⟩
    rw [scan, hnext, hcalled]
    exact hscan

/-- Texts with no name across their border. -/
theorem Calls.append {a b : String} {names more : List String} (h : Calls p a names)
    (h' : Calls p b more) (apart : endsApart a ∨ startsApart b) :
    Calls p (a ++ b) (names ++ more) := by
  rw [calls_iff] at h h' ⊢
  obtain ⟨word, calls, hscan, hnames⟩ := h
  obtain ⟨word', calls', hscan', hmore⟩ := h'
  -- What is left of a name at the end of `a` is either empty or dropped by the start of `b`.
  have hborder : ∃ word', scan (.code word) b.toList = (.code word', calls') := by
    rcases apart with apart | apart
    · rw [word_of_endsApart apart hscan]
      exact ⟨word', hscan'⟩
    · exact scan_of_startsApart apart hscan' word
  obtain ⟨word', hscan'⟩ := hborder
  refine ⟨word', calls ++ calls', ?_, ?_⟩
  · rw [String.toList_append, scan_append, hscan, hscan']
  · rw [List.filter_append, hnames, hmore]

theorem Calls.preceded {a : String} {names : List String} (h : Calls p a names) (text : String)
    (ht : Calls p text [] ∧ endsApart text) : Calls p (text ++ a) names :=
  ht.1.append h (.inl ht.2)

theorem Calls.followed {a : String} {names : List String} (h : Calls p a names) (text : String)
    (ht : Calls p text [] ∧ startsApart text) : Calls p (a ++ text) names := by
  have hends := h.append ht.1 (.inr ht.2)
  rwa [List.append_nil] at hends

/-- A text between two others that no name crosses. -/
theorem Calls.between {a b : String} {names more : List String} (h : Calls p a names)
    (text : String) (h' : Calls p b more)
    (ht : Calls p text [] ∧ startsApart text ∧ endsApart text) :
    Calls p (a ++ text ++ b) (names ++ more) :=
  (h.followed text ⟨ht.1, ht.2.1⟩).append h' (.inl (endsApart_append a ht.2.2))

/-! ## Pieces of lines -/

theorem calls_of_isNameChar {text : String} (h : text.toList.all isNameChar) : Calls p text [] := by
  have hscan : ∀ (cs word : List Char), cs.all isNameChar →
      scan (.code word) cs = (.code (cs.reverse ++ word), []) := by
    intro cs
    induction cs with
    | nil => exact fun _ _ => rfl
    | cons c cs ih =>
      intro word hcs
      rw [List.all_cons, Bool.and_eq_true] at hcs
      have hparen : c ≠ '(' := by
        rintro rfl
        exact absurd hcs.1 (by decide)
      rw [scan, Place.next, if_pos hcs.1, ih _ hcs.2]
      simp [Place.called, hparen]
  rw [calls_iff]
  exact ⟨_, [], hscan _ [] h, rfl⟩

theorem calls_repr (n : ℕ) : Calls p n.repr [] := by
  apply calls_of_isNameChar
  rw [Nat.toList_repr, List.all_eq_true]
  intro c hc
  simp [isNameChar, Char.isAlphanum, Nat.isDigit_of_mem_toDigits (by decide) (by decide) hc]

theorem scan_escapeChar (c : Char) : scan .quoted (escapeChar c) = (.quoted, []) := by
  unfold escapeChar
  split
  next => rfl
  next => rfl
  next => rfl
  next => rfl
  next hslash hquote _ _ =>
    rw [scan, Place.next, if_neg hslash, if_neg hquote]
    rfl

theorem scan_flatMap_escapeChar (cs : List Char) :
    scan .quoted (cs.flatMap escapeChar) = (.quoted, []) := by
  induction cs with
  | nil => rfl
  | cons c cs ih => rw [List.flatMap_cons, scan_append, scan_escapeChar, ih, List.append_nil]

theorem calls_literal (s : String) : Calls p (literal s) [] := by
  have hchars := toList_literal_append s []
  rw [List.append_nil] at hchars
  rw [calls_iff, hchars]
  refine ⟨[], [], ?_, rfl⟩
  change scan .quoted _ = _
  rw [scan_append, scan_flatMap_escapeChar]
  rfl

theorem calls_propertyAccess {object : String} (h : object.toList.all isNameChar) (name : String) :
    Calls p (propertyAccess object name) [] := by
  have hobject := calls_of_isNameChar (p := p) h
  unfold propertyAccess
  split_ifs with hbare
  · have hname := calls_of_isNameChar (p := p) (all_isNameChar_of_isBareName hbare)
    exact hobject.between "." hname ⟨rfl, rfl, rfl⟩
  · exact (hobject.between "[" (calls_literal name) ⟨rfl, rfl, rfl⟩).followed "]" ⟨rfl, rfl⟩

theorem calls_propertyKey (name : String) : Calls p (propertyKey name) [] := by
  unfold propertyKey
  split_ifs with hbare
  · exact calls_of_isNameChar (all_isNameChar_of_isBareName hbare)
  · exact calls_literal name

theorem calls_intercalate {entries : List String} (h : ∀ entry ∈ entries, Calls p entry []) :
    Calls p (", ".intercalate entries) [] := by
  induction entries with
  | nil => rfl
  | cons entry entries ih =>
    rw [List.forall_mem_cons] at h
    cases entries with
    | nil =>
      rw [String.intercalate_singleton]
      exact h.1
    | cons next entries =>
      rw [String.intercalate_cons_cons]
      exact h.1.between ", " (ih h.2) ⟨rfl, rfl, rfl⟩

theorem calls_braced {entries : List String} (h : ∀ entry ∈ entries, Calls p entry []) :
    Calls p (braced entries) [] :=
  ((calls_intercalate h).preceded "\x7b " ⟨rfl, rfl⟩).followed " \x7d" ⟨rfl, rfl⟩

/-! ## Template literals -/

/-- The places in the fixed part of a template. -/
def Place.InTemplate (place : Place) : Prop :=
  place = .template ∨ place = .dollar

theorem Place.InTemplate.scan_cons {place : Place} (h : place.InTemplate) {c : Char}
    (hbrace : c ≠ '\x7b') (cs : List Char) : scan place (c :: cs) = scan (.inTemplate c) cs := by
  rcases h with rfl | rfl
  · rfl
  · simp [scan, Place.next, hbrace, Place.called]

theorem scan_escapeTemplateChars {text : List Char} (h : '\x7b' ∉ text) {place : Place}
    (hplace : place.InTemplate) :
    ∃ place', place'.InTemplate ∧ scan place (escapeTemplateChars text) = (place', []) := by
  fun_induction escapeTemplateChars text generalizing place with
  | case1 => exact ⟨place, hplace, rfl⟩
  | case2 cs ih =>
    rw [hplace.scan_cons (by decide)]
    exact ih (by simpa using h) (.inl rfl)
  | case3 cs ih =>
    rw [hplace.scan_cons (by decide)]
    exact ih (by simpa using h) (.inl rfl)
  | case4 cs ih => simp at h
  | case5 c cs hslash htick _ ih =>
    rw [List.mem_cons, not_or] at h
    rw [hplace.scan_cons (Ne.symm h.1)]
    refine ih h.2 ?_
    rw [Place.inTemplate, if_neg hslash, if_neg htick]
    split_ifs
    · exact .inr rfl
    · exact .inl rfl

/-! ## Lines -/

theorem scan_tabs (depth : ℕ) (cs : List Char) :
    scan (.code []) (List.replicate depth '\t' ++ cs) = scan (.code []) cs := by
  induction depth with
  | zero => rfl
  | succ depth ih =>
    rw [List.replicate_succ, List.cons_append]
    exact ih

theorem Calls.indented {l : String} {names : List String} (h : Calls p l names) (depth : ℕ) :
    Calls p (Writer.indented depth l) names := by
  unfold Writer.indented
  split_ifs with hempty
  · exact hempty ▸ h
  · rw [calls_iff] at h ⊢
    rwa [String.toList_append, Writer.tabs, String.toList_ofList, scan_tabs]

/-- The calls of some lines, each of which ends in code. -/
inductive LinesCall (p : String → Bool) : List String → List String → Prop
  | nil : LinesCall p [] []
  | cons {l : String} {ls names more : List String} :
    Calls p l names → LinesCall p ls more → LinesCall p (l :: ls) (names ++ more)

namespace LinesCall

theorem append {ls ls' names more : List String} (h : LinesCall p ls names)
    (h' : LinesCall p ls' more) : LinesCall p (ls ++ ls') (names ++ more) := by
  induction h with
  | nil => exact h'
  | cons hline _ ih =>
    rw [List.append_assoc]
    exact .cons hline ih

theorem flatMap {α : Type} {xs : List α} {f g : α → List String}
    (h : ∀ x ∈ xs, LinesCall p (f x) (g x)) : LinesCall p (xs.flatMap f) (xs.flatMap g) := by
  induction xs with
  | nil => exact .nil
  | cons x xs ih =>
    rw [List.forall_mem_cons] at h
    exact h.1.append (ih h.2)

theorem quiet_cons {l : String} {ls names : List String} (h : Calls p l [])
    (h' : LinesCall p ls names) : LinesCall p (l :: ls) names :=
  .cons h h'

theorem quiet {ls : List String} (h : ∀ l ∈ ls, Calls p l []) : LinesCall p ls [] := by
  induction ls with
  | nil => exact .nil
  | cons l ls ih =>
    rw [List.forall_mem_cons] at h
    exact .cons h.1 (ih h.2)

theorem quiet_flatMap {α : Type} {xs : List α} {f : α → List String}
    (h : ∀ x ∈ xs, LinesCall p (f x) []) : LinesCall p (xs.flatMap f) [] := by
  have hnil : xs.flatMap (fun _ => ([] : List String)) = [] :=
    List.flatMap_eq_nil_iff.2 fun _ _ => rfl
  exact hnil ▸ flatMap h

theorem indented {ls names : List String} (h : LinesCall p ls names) (depth : ℕ) :
    LinesCall p (ls.map (Writer.indented depth)) names := by
  induction h with
  | nil => exact .nil
  | cons hline _ ih => exact .cons (hline.indented depth) ih

/-- The calls of the text that the lines are. -/
theorem calls_textOf {ls names : List String} (h : LinesCall p ls names) (newline : Text.Newline) :
    Calls p (Writer.textOf newline ls) names := by
  induction h with
  | nil => rfl
  | cons hline _ ih =>
    rw [Writer.textOf_cons]
    cases newline with
    | lf => exact hline.between "\n" ih ⟨rfl, rfl, rfl⟩
    | crlf => exact hline.between "\r\n" ih ⟨rfl, rfl, rfl⟩

end LinesCall

end HttpStubs.Code

/-! ## The expression of the URI -/

namespace HttpStubs.Stub.Client

open Api (PathPart Slot)
open Code

variable {p : String → Bool}

theorem scan_hole {name : List Char} (h : name.all isNameChar) :
    scan .hole name = (.hole, []) := by
  induction name with
  | nil => rfl
  | cons c name ih =>
    rw [List.all_cons, Bool.and_eq_true] at h
    rw [scan, Place.next, if_pos h.1, ih h.2]
    rfl

theorem scan_templateChars {parts : List PathPart} (h : IsPlain parts) {place : Place}
    (hplace : place.InTemplate) :
    ∃ place', place'.InTemplate ∧ scan place (templateChars parts) = (place', []) := by
  induction parts generalizing place with
  | nil => exact ⟨place, hplace, rfl⟩
  | cons part parts ih =>
    cases part with
    | text t =>
      have hbrace : '\x7b' ∉ t.toList := fun hmem =>
        absurd (h t List.mem_cons_self _ hmem) (by decide)
      obtain ⟨place', hplace', hscan⟩ := scan_escapeTemplateChars hbrace hplace
      obtain ⟨place'', hplace'', hscan'⟩ := ih h.tail hplace'
      refine ⟨place'', hplace'', ?_⟩
      rw [templateChars_text, scan_append, hscan, hscan']
      rfl
    | capture s =>
      have hname := all_isNameChar_of_isBareName (isBareName_uriVariable s.name)
      have hopen : ∀ cs, scan (.inTemplate '$') ('\x7b' :: cs) = scan .hole cs := fun _ => rfl
      have hclose : ∀ cs, scan .hole ('\x7d' :: cs) = scan .template cs := fun _ => rfl
      obtain ⟨place', hplace', hscan⟩ := ih h.tail (.inl rfl)
      refine ⟨place', hplace', ?_⟩
      rw [templateChars_capture, hplace.scan_cons (by decide), hopen, scan_append, scan_hole hname,
        hclose, hscan]
      rfl

theorem calls_uriExpression {path : List PathPart} (h : IsPlain path) :
    Calls p (uriExpression path) [] := by
  unfold uriExpression
  simp only
  split_ifs
  · obtain ⟨place, hplace, hscan⟩ := scan_templateChars (isPlain_relativeParts h) (.inl rfl)
    rw [calls_iff, toList_template]
    refine ⟨[], [], ?_, rfl⟩
    change scan .template _ = _
    rw [scan_append, hscan, hplace.scan_cons (by decide)]
    rfl
  · exact calls_literal _

end HttpStubs.Stub.Client

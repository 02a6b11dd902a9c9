import Mathlib.Data.List.Chain
import HttpStubs.Proofs.Partition
import HttpStubs.Proofs.PathGrammar

/-!
# The reading of path templates

A path template is a sequence of texts without braces and of placeholders, each of which is an
identifier in braces and the name of a path field (`IsPart`). `parse` accepts exactly the templates
in which each path field has a placeholder, and cuts them in the one way that has no empty text and
no two texts in a row (`IsReduced`). Everything else is refused for the leftmost brace or
placeholder that does not fit (`Offence`); a path field without a placeholder is reported only if
there is none (`parse_exact`).
-/

namespace HttpStubs.Api.PathTemplate

/-! ## Templates -/

/-- A letter of an identifier. -/
def IsLetter (c : Char) : Prop :=
  ('A' ≤ c ∧ c ≤ 'Z') ∨ ('a' ≤ c ∧ c ≤ 'z') ∨ c = '_'

/-- The texts that match `[A-Za-z_][A-Za-z0-9_]*`. -/
def IsName (name : List Char) : Prop :=
  ∃ c cs, name = c :: cs ∧ IsLetter c ∧ ∀ d ∈ cs, IsLetter d ∨ ('0' ≤ d ∧ d ≤ '9')

/-- A part as it stands in a template. -/
def sourceOf : PathPart → String
  | .text t => t
  | .capture s => "\x7b" ++ s.name ++ "\x7d"

/-- The template of some parts. -/
def source (parts : List PathPart) : String :=
  String.join (parts.map sourceOf)

/-- A part that a template over some path fields can have. -/
def IsPart (fields : List Slot) : PathPart → Prop
  | .text t => ∀ c ∈ t.toList, isBrace c = false
  | .capture s => s ∈ fields ∧ IsName s.name.toList

/-- Whether a part is fixed text. -/
def isText : PathPart → Bool
  | .text _ => true
  | .capture _ => false

/-- No text is empty, and no two texts stand in a row. -/
def IsReduced (parts : List PathPart) : Prop :=
  (∀ t, .text t ∈ parts → t ≠ "") ∧ parts.IsChain fun p q => ¬(isText p ∧ isText q)

/-- What is wrong with a template at its first character. -/
inductive Offence (fields : List Slot) : List Char → PathFault → Prop
  /-- A closing brace that closes nothing. -/
  | stray (rest : List Char) : Offence fields ('\x7d' :: rest) .malformed
  /-- An opening brace that is not closed. -/
  | unclosed {name : List Char} (plain : ∀ c ∈ name, isBrace c = false) :
      Offence fields ('\x7b' :: name) .malformed
  /-- An opening brace in a placeholder. -/
  | nested {name : List Char} (rest : List Char) (plain : ∀ c ∈ name, isBrace c = false) :
      Offence fields ('\x7b' :: name ++ '\x7b' :: rest) .malformed
  | empty (rest : List Char) : Offence fields ('\x7b' :: '\x7d' :: rest) .malformed
  | invalid {name : List Char} (rest : List Char) (plain : ∀ c ∈ name, isBrace c = false)
      (nonempty : name ≠ []) (notName : ¬IsName name) :
      Offence fields ('\x7b' :: name ++ '\x7d' :: rest) (.invalid (String.ofList name))
  | unbound {name : List Char} (rest : List Char) (isName : IsName name)
      (free : ∀ f ∈ fields, f.name ≠ String.ofList name) :
      Offence fields ('\x7b' :: name ++ '\x7d' :: rest) (.unbound (String.ofList name))

/-- Why a template is refused: for its leftmost offence, or, if it has none, for the first path
field without a placeholder. -/
inductive Refusal (fields : List Slot) (path : String) : PathFault → Prop
  | offence {parts : List PathPart} {rest : List Char} {fault : PathFault}
      (accepted : ∀ part ∈ parts, IsPart fields part)
      (split : path = source parts ++ String.ofList rest) (offence : Offence fields rest fault) :
      Refusal fields path fault
  | missing {parts : List PathPart} {before after : List Slot} {f : Slot}
      (accepted : ∀ part ∈ parts, IsPart fields part) (whole : path = source parts)
      (split : fields = before ++ f :: after) (present : ∀ g ∈ before, .capture g ∈ parts)
      (absent : .capture f ∉ parts) : Refusal fields path (.missing f.name)

variable {fields : List Slot}

theorem isIdentifier_iff {name : List Char} : isIdentifier name ↔ IsName name := by
  have letter : ∀ c : Char, (c.isAlpha || c == '_') = true ↔ IsLetter c := by
    intro c
    have hupper : c.isUpper = true ↔ 'A' ≤ c ∧ c ≤ 'Z' := decide_eq_true_iff
    have hlower : c.isLower = true ↔ 'a' ≤ c ∧ c ≤ 'z' := by
      show (decide ('a' ≤ c) && decide (c ≤ 'z')) = true ↔ _
      rw [Bool.and_eq_true, decide_eq_true_iff, decide_eq_true_iff]
    show ((c.isUpper || c.isLower) || c == '_') = true ↔ _
    rw [Bool.or_eq_true, Bool.or_eq_true, hupper, hlower, beq_iff_eq, or_assoc]
    rfl
  have digit : ∀ c : Char, (c.isAlphanum || c == '_') = true ↔
      IsLetter c ∨ ('0' ≤ c ∧ c ≤ '9') := by
    intro c
    have hdigit : c.isDigit = true ↔ '0' ≤ c ∧ c ≤ '9' := by
      simp [Char.isDigit, Char.le_def]
    rw [← letter, ← hdigit, Char.isAlphanum, Bool.or_eq_true, Bool.or_eq_true, Bool.or_eq_true]
    exact or_right_comm
  cases name with
  | nil => simp [isIdentifier, IsName]
  | cons c cs =>
    simp only [isIdentifier, IsName, Bool.and_eq_true, List.all_eq_true, letter, digit]
    constructor
    · rintro ⟨hc, hcs⟩
      exact ⟨c, cs, rfl, hc, hcs⟩
    · rintro ⟨_, _, heq, hc, hcs⟩
      cases heq
      exact ⟨hc, hcs⟩

theorem IsName.plain {name : List Char} (h : IsName name) : ∀ c ∈ name, isBrace c = false := by
  have letter : ∀ c, IsLetter c ∨ ('0' ≤ c ∧ c ≤ '9') → isBrace c = false := by
    intro c hc
    by_contra hbrace
    obtain rfl | rfl : c = '\x7b' ∨ c = '\x7d' := by
      simpa [isBrace, or_iff_not_imp_left] using hbrace
    all_goals
      unfold IsLetter at hc
      revert hc
      decide
  obtain ⟨c, cs, rfl, hc, hcs⟩ := h
  intro d hd
  rcases List.mem_cons.1 hd with rfl | hd
  · exact letter d (Or.inl hc)
  · exact letter d (hcs d hd)

theorem toList_source_cons (part : PathPart) (parts : List PathPart) :
    (source (part :: parts)).toList = (sourceOf part).toList ++ (source parts).toList := by
  rw [source, List.map_cons, String.join_cons, String.toList_append]
  rfl

theorem toList_sourceOf_capture (s : Slot) :
    (sourceOf (.capture s)).toList = '\x7b' :: (s.name.toList ++ ['\x7d']) := by
  rw [sourceOf, String.toList_append, String.toList_append]
  rfl

theorem captured_append (parts others : List PathPart) :
    captured (parts ++ others) = captured parts ++ captured others := by
  induction parts with
  | nil => rfl
  | cons part parts ih => cases part <;> simp [captured, ih]

@[simp] theorem captured_textPart (t : List Char) : captured (textPart t) = [] := by
  unfold textPart
  split_ifs <;> rfl

/-! ## Reading what fits -/

theorem parseText_plain {t : List Char} (plain : ∀ c ∈ t, isBrace c = false)
    (text rest : List Char) :
    parseText fields text (t ++ rest) = parseText fields (t.reverse ++ text) rest := by
  induction t generalizing text with
  | nil => rfl
  | cons c t ih =>
    rw [List.forall_mem_cons] at plain
    have hbrace : c ≠ '\x7b' ∧ c ≠ '\x7d' := by simpa [isBrace] using plain.1
    rw [List.cons_append, parseText, if_neg hbrace.2, if_neg hbrace.1, ih plain.2]
    simp

theorem parseName_plain {t : List Char} (plain : ∀ c ∈ t, isBrace c = false)
    (name rest : List Char) :
    parseName fields name (t ++ rest) = parseName fields (t.reverse ++ name) rest := by
  induction t generalizing name with
  | nil => rfl
  | cons c t ih =>
    rw [List.forall_mem_cons] at plain
    have hbrace : c ≠ '\x7b' ∧ c ≠ '\x7d' := by simpa [isBrace] using plain.1
    rw [List.cons_append, parseName, if_neg hbrace.1, if_neg hbrace.2, ih plain.2]
    simp

/-- A placeholder is read up to its closing brace. -/
theorem parseText_placeholder {name : List Char} (plain : ∀ c ∈ name, isBrace c = false)
    (text rest : List Char) :
    parseText fields text ('\x7b' :: name ++ '\x7d' :: rest) = do
      let slot ← capture fields name
      let parts ← parseText fields [] rest
      return textPart text.reverse ++ .capture slot :: parts := by
  have hname : parseName fields [] (name ++ '\x7d' :: rest) = do
      let slot ← capture fields name
      let parts ← parseText fields [] rest
      return .capture slot :: parts := by
    rw [parseName_plain plain, parseName, if_neg (by decide), if_pos rfl, List.append_nil,
      List.reverse_reverse]
  rw [List.cons_append, parseText, if_neg (by decide), if_pos rfl, hname]
  simp only [bind_assoc, pure_bind]

theorem capture_of_find? {s : Slot} (identifier : isIdentifier s.name.toList)
    (bound : fields.find? (·.name == s.name) = some s) :
    capture fields s.name.toList = .ok s := by
  have hempty : s.name.toList ≠ [] := by
    intro hnil
    rw [hnil] at identifier
    cases identifier
  unfold capture
  rw [if_neg (by simpa using hempty), if_neg (by simp [identifier]), String.ofList_toList, bound]

/-- A template is read into its parts, behind a text that does not touch them. -/
theorem Template.parseText_eq {cs : List Char} {parts : List PathPart}
    (h : Template fields cs parts) (text : List Char)
    (apart : text = [] ∨ startsWithText parts = false) :
    parseText fields text cs = .ok (textPart text.reverse ++ parts) := by
  induction h generalizing text with
  | nil => simp [parseText]
  | @text t cs parts nonempty plain apart' _ ih =>
    obtain rfl : text = [] := apart.resolve_right (by simp [startsWithText])
    rw [parseText_plain plain, ih _ (Or.inr apart')]
    simp [textPart, nonempty]
  | @capture s cs parts identifier bound _ ih =>
    rw [parseText_placeholder (isIdentifier_iff.1 identifier).plain,
      capture_of_find? identifier bound, ih [] (Or.inl rfl)]
    rfl

theorem parseText_eq_ok_iff {cs : List Char} {parts : List PathPart} :
    parseText fields [] cs = .ok parts ↔ Template fields cs parts :=
  ⟨fun h => (template_of_parse cs).1 [] parts (by simp) h, fun h => h.parseText_eq [] (Or.inl rfl)⟩

theorem isReduced_cons {part : PathPart} {parts : List PathPart} :
    IsReduced (part :: parts) ↔
      (∀ t, part = .text t → t ≠ "" ∧ startsWithText parts = false) ∧ IsReduced parts := by
  have head : (∀ q ∈ parts.head?, ¬(isText part ∧ isText q)) ↔
      (isText part → startsWithText parts = false) := by
    cases parts with
    | nil => simp [startsWithText]
    | cons q parts => cases q <;> simp [isText, startsWithText]
  unfold IsReduced
  rw [List.isChain_cons, head]
  cases part with
  | text t =>
    simp only [List.mem_cons, PathPart.text.injEq, isText, forall_const, forall_eq_or_imp,
      forall_eq']
    tauto
  | capture s => simp [isText]

section Distinct

variable (distinct : (fields.map (·.name)).Nodup)

include distinct

theorem find?_slot {s : Slot} (hs : s ∈ fields) : fields.find? (·.name == s.name) = some s :=
  Service.find?_name_eq_some distinct hs

theorem template_iff {cs : List Char} {parts : List PathPart} :
    Template fields cs parts ↔
      (∀ part ∈ parts, IsPart fields part) ∧ IsReduced parts ∧ (source parts).toList = cs := by
  constructor
  · intro h
    induction h with
    | nil => exact ⟨by simp, by simp [IsReduced], rfl⟩
    | @text t cs parts nonempty plain apart _ ih =>
      obtain ⟨accepted, reduced, hsource⟩ := ih
      refine ⟨?_, ?_, ?_⟩
      · rw [List.forall_mem_cons]
        exact ⟨by simpa [IsPart] using plain, accepted⟩
      · rw [isReduced_cons]
        refine ⟨?_, reduced⟩
        intro t' heq
        cases heq
        exact ⟨by simpa using nonempty, apart⟩
      · rw [toList_source_cons, hsource, sourceOf, String.toList_ofList]
    | @capture s cs parts identifier bound _ ih =>
      obtain ⟨accepted, reduced, hsource⟩ := ih
      refine ⟨?_, isReduced_cons.2 ⟨nofun, reduced⟩, ?_⟩
      · rw [List.forall_mem_cons]
        exact ⟨⟨List.mem_of_find?_eq_some bound, isIdentifier_iff.1 identifier⟩, accepted⟩
      · rw [toList_source_cons, hsource, toList_sourceOf_capture]
        simp
  · rintro ⟨accepted, reduced, rfl⟩
    induction parts with
    | nil => exact .nil
    | cons part parts ih =>
      rw [List.forall_mem_cons] at accepted
      rw [isReduced_cons] at reduced
      have rest := ih accepted.2 reduced.2
      rw [toList_source_cons]
      cases part with
      | text t =>
        obtain ⟨nonempty, apart⟩ := reduced.1 t rfl
        have htext := Template.text (by simpa using nonempty) accepted.1 apart rest
        rwa [String.ofList_toList] at htext
      | capture s =>
        obtain ⟨hs, isName⟩ := accepted.1
        have hcapture := Template.capture (isIdentifier_iff.2 isName) (find?_slot distinct hs) rest
        rw [toList_sourceOf_capture]
        simpa using hcapture

/-- Parts that fit are read as they come; what follows is read behind the text that is left open. -/
theorem parseText_source {parts : List PathPart} (accepted : ∀ part ∈ parts, IsPart fields part)
    (text : List Char) :
    ∃ text' front, captured front = captured parts ∧ ∀ rest,
      parseText fields text ((source parts).toList ++ rest) =
        (front ++ ·) <$> parseText fields text' rest := by
  induction parts generalizing text with
  | nil => exact ⟨text, [], rfl, fun rest => (id_map _).symm⟩
  | cons part parts ih =>
    rw [List.forall_mem_cons] at accepted
    cases part with
    | text t =>
      obtain ⟨text', front, hcaptured, hrest⟩ := ih accepted.2 (t.toList.reverse ++ text)
      refine ⟨text', front, hcaptured, fun rest => ?_⟩
      rw [toList_source_cons, sourceOf, List.append_assoc, parseText_plain accepted.1, hrest]
    | capture s =>
      obtain ⟨hs, isName⟩ := accepted.1
      obtain ⟨text', front, hcaptured, hrest⟩ := ih accepted.2 []
      refine ⟨text', textPart text.reverse ++ .capture s :: front, ?_, fun rest => ?_⟩
      · simp [captured_append, captured, hcaptured]
      · have hslot : capture fields s.name.toList = .ok s :=
          capture_of_find? (isIdentifier_iff.2 isName) (find?_slot distinct hs)
        have hplaceholder := @parseText_placeholder fields _ isName.plain text
          ((source parts).toList ++ rest)
        rw [hslot, hrest] at hplaceholder
        rw [toList_source_cons, toList_sourceOf_capture]
        simp only [List.cons_append, List.append_assoc, List.nil_append] at hplaceholder ⊢
        rw [hplaceholder]
        cases parseText fields text' rest <;> rfl

/-- Where the parts fit, a path field has a placeholder if its name is captured. -/
theorem name_mem_captured_iff {parts : List PathPart}
    (accepted : ∀ part ∈ parts, IsPart fields part) {f : Slot} (hf : f ∈ fields) :
    f.name ∈ captured parts ↔ .capture f ∈ parts := by
  rw [mem_captured_iff]
  constructor
  · rintro ⟨s, hs, hname⟩
    have hmem : s ∈ fields := (accepted _ hs).1
    have hfind := find?_slot distinct hmem
    rw [hname, find?_slot distinct hf] at hfind
    rwa [Option.some.inj hfind]
  · intro hf
    exact ⟨f, hf, rfl⟩

/-- The first path field that is not captured is the first without a placeholder. -/
theorem find?_missing_iff {parts : List PathPart}
    (accepted : ∀ part ∈ parts, IsPart fields part) {f : Slot} :
    fields.find? (fun f => !(captured parts).contains f.name) = some f ↔
      ∃ before after, fields = before ++ f :: after ∧ (∀ g ∈ before, .capture g ∈ parts) ∧
        .capture f ∉ parts := by
  have present : ∀ g ∈ fields, g.name ∈ captured parts ↔ .capture g ∈ parts :=
    fun g hg => name_mem_captured_iff distinct accepted hg
  rw [List.find?_eq_some_iff_append]
  constructor
  · rintro ⟨hmissing, before, after, rfl, hbefore⟩
    refine ⟨before, after, rfl, fun g hg => ?_, ?_⟩
    · exact (present g (by simp [hg])).1 (by simpa using hbefore g hg)
    · rw [← present f (by simp)]
      simpa using hmissing
  · rintro ⟨before, after, rfl, hbefore, habsent⟩
    rw [← present f (by simp)] at habsent
    refine ⟨by simpa using habsent, before, after, rfl, fun g hg => ?_⟩
    simpa using (present g (by simp [hg])).2 (hbefore g hg)

end Distinct

/-! ## Reading what does not fit -/

theorem capture_of_not_isName {name : List Char} (nonempty : name ≠ []) (h : ¬IsName name) :
    capture fields name = .error (.invalid (String.ofList name)) := by
  have hident : isIdentifier name ≠ true := fun hident => h (isIdentifier_iff.1 hident)
  unfold capture
  rw [if_neg (by simpa using nonempty), if_pos (by simpa using hident)]

theorem capture_of_free {name : List Char} (h : IsName name)
    (free : ∀ f ∈ fields, f.name ≠ String.ofList name) :
    capture fields name = .error (.unbound (String.ofList name)) := by
  have hempty : name ≠ [] := by
    obtain ⟨c, cs, rfl, -, -⟩ := h
    exact List.cons_ne_nil c cs
  have hfind : fields.find? (·.name == String.ofList name) = none := by
    rw [List.find?_eq_none]
    simpa using free
  unfold capture
  rw [if_neg (by simpa using hempty), if_neg (by simp [isIdentifier_iff.2 h]), hfind]

theorem Offence.parseText_eq {rest : List Char} {fault : PathFault}
    (h : Offence fields rest fault) (text : List Char) :
    parseText fields text rest = .error fault := by
  have fails : ∀ name rest, (∀ c ∈ name, isBrace c = false) → capture fields name = .error fault →
      parseText fields text ('\x7b' :: name ++ '\x7d' :: rest) = .error fault := by
    intro name rest plain hcapture
    rw [parseText_placeholder plain, hcapture]
    rfl
  cases h with
  | stray rest => rw [parseText, if_pos rfl]
  | unclosed plain =>
    have hname := @parseName_plain fields _ plain [] []
    rw [List.append_nil] at hname
    rw [parseText, if_neg (by decide), if_pos rfl, hname, parseName]
    rfl
  | nested rest plain =>
    rw [List.cons_append, parseText, if_neg (by decide), if_pos rfl, parseName_plain plain,
      parseName, if_pos rfl]
    rfl
  | empty rest => exact fails [] rest (by simp) rfl
  | @invalid name rest plain nonempty notName =>
    exact fails name rest plain (capture_of_not_isName nonempty notName)
  | @unbound name rest isName free =>
    exact fails name rest isName.plain (capture_of_free isName free)

/-- A placeholder that cannot be captured is an offence. -/
theorem offence_of_capture {name : List Char} {fault : PathFault}
    (plain : ∀ c ∈ name, isBrace c = false) (h : capture fields name = .error fault)
    (rest : List Char) : Offence fields ('\x7b' :: name ++ '\x7d' :: rest) fault := by
  by_cases hempty : name = []
  · subst hempty
    cases h
    exact .empty rest
  by_cases hname : IsName name
  · cases hfind : fields.find? (·.name == String.ofList name) with
    | some s =>
      have hs : s.name = String.ofList name := (Service.mem_of_find?_name hfind).2
      have hok := @capture_of_find? fields s
      rw [hs, String.toList_ofList] at hok
      rw [hok (isIdentifier_iff.2 hname) hfind] at h
      cases h
    | none =>
      have free : ∀ f ∈ fields, f.name ≠ String.ofList name := by
        simpa using List.find?_eq_none.1 hfind
      rw [capture_of_free hname free] at h
      cases h
      exact .unbound rest hname free
  · rw [capture_of_not_isName hempty hname] at h
    cases h
    exact .invalid rest plain hempty hname

/-- The characters are parts that fit and then an offence. -/
def Breaks (fields : List Slot) (cs : List Char) (fault : PathFault) : Prop :=
  ∃ parts rest, (∀ part ∈ parts, IsPart fields part) ∧ cs = (source parts).toList ++ rest ∧
    Offence fields rest fault

theorem Offence.breaks {cs : List Char} {fault : PathFault} (h : Offence fields cs fault) :
    Breaks fields cs fault :=
  ⟨[], cs, by simp, rfl, h⟩

theorem Breaks.cons {part : PathPart} {cs : List Char} {fault : PathFault}
    (h : Breaks fields cs fault) (hpart : IsPart fields part) :
    Breaks fields ((sourceOf part).toList ++ cs) fault := by
  obtain ⟨parts, rest, accepted, rfl, offence⟩ := h
  refine ⟨part :: parts, rest, List.forall_mem_cons.2 ⟨hpart, accepted⟩, ?_, offence⟩
  rw [toList_source_cons, List.append_assoc]

/-- The two readers, by induction on the characters that are left. What a text reader has read is
of no account for its faults; what a name reader has read stands in front, behind its brace. -/
theorem breaks_of_parse (cs : List Char) :
    (∀ text fault, parseText fields text cs = .error fault → Breaks fields cs fault) ∧
    (∀ name fault, (∀ c ∈ name, isBrace c = false) → parseName fields name cs = .error fault →
      Breaks fields ('\x7b' :: name.reverse ++ cs) fault) := by
  induction cs with
  | nil =>
    refine ⟨fun text fault h => by simp [parseText] at h, fun name fault plain h => ?_⟩
    rw [parseName] at h
    cases h
    rw [List.append_nil]
    exact (Offence.unclosed (by simpa using plain)).breaks
  | cons c cs ih =>
    refine ⟨fun text fault h => ?_, fun name fault plain h => ?_⟩
    · unfold parseText at h
      split_ifs at h with hclose hopen
      · cases h
        rw [hclose]
        exact (Offence.stray cs).breaks
      · rcases bind_eq_error_iff.1 h with h | ⟨parts, -, h⟩
        · rw [hopen]
          exact ih.2 [] fault (by simp) h
        · cases h
      · have hplain : IsPart fields (.text (String.ofList [c])) := by
          simp [IsPart, isBrace, hopen, hclose]
        simpa [sourceOf] using (ih.1 _ fault h).cons hplain
    · unfold parseName at h
      split_ifs at h with hopen hclose
      · cases h
        rw [hopen]
        exact (Offence.nested cs (by simpa using plain)).breaks
      · rw [hclose]
        rcases bind_eq_error_iff.1 h with h | ⟨s, hs, h⟩
        · exact (offence_of_capture (by simpa using plain) h cs).breaks
        · rcases bind_eq_error_iff.1 h with h | ⟨parts, -, h⟩
          · obtain ⟨identifier, hname, bound⟩ := capture_eq_ok hs
            have hpart : IsPart fields (.capture s) :=
              ⟨List.mem_of_find?_eq_some bound, by rw [hname]; exact isIdentifier_iff.1 identifier⟩
            have hrest := (ih.1 _ fault h).cons hpart
            rw [toList_sourceOf_capture, hname] at hrest
            simpa using hrest
          · cases h
      · have hplain : ∀ d ∈ c :: name, isBrace d = false := by
          simpa [isBrace, hopen, hclose] using plain
        simpa using ih.2 (c :: name) fault hplain h

/-! ## Results and refusals -/

theorem parse_eq_error_iff {path : String} {fault : PathFault} :
    parse fields path = .error fault ↔
      parseText fields [] path.toList = .error fault ∨
      ∃ parts f, parseText fields [] path.toList = .ok parts ∧
        fields.find? (fun f => !(captured parts).contains f.name) = some f ∧
        fault = .missing f.name := by
  unfold parse
  rw [bind_eq_error_iff]
  refine or_congr Iff.rfl ⟨?_, ?_⟩
  · rintro ⟨parts, hparts, h⟩
    split at h
    next f hfind =>
      cases h
      exact ⟨parts, f, hparts, hfind, rfl⟩
    next => cases h
  · rintro ⟨parts, f, hparts, hfind, rfl⟩
    refine ⟨parts, hparts, ?_⟩
    rw [hfind]

section Distinct

variable (distinct : (fields.map (·.name)).Nodup)

include distinct

/-- A template all of whose parts fit is read, and captures what its placeholders say. -/
theorem parseText_of_accepted {parts : List PathPart}
    (accepted : ∀ part ∈ parts, IsPart fields part) :
    ∃ parts', parseText fields [] (source parts).toList = .ok parts' ∧
      captured parts' = captured parts := by
  obtain ⟨text, front, hcaptured, hrest⟩ := parseText_source distinct accepted []
  have hread := hrest []
  rw [List.append_nil, parseText] at hread
  exact ⟨front ++ textPart text.reverse, hread, by simp [captured_append, hcaptured]⟩

theorem parse_eq_ok_iff_reduced {path : String} {parts : List PathPart} :
    parse fields path = .ok parts ↔
      (∀ part ∈ parts, IsPart fields part) ∧ IsReduced parts ∧ source parts = path ∧
        ∀ f ∈ fields, .capture f ∈ parts := by
  rw [parse_eq_ok_iff, parseText_eq_ok_iff, template_iff distinct, String.toList_inj]
  constructor
  · rintro ⟨⟨accepted, reduced, hsource⟩, hall⟩
    refine ⟨accepted, reduced, hsource, fun f hf => ?_⟩
    exact (name_mem_captured_iff distinct accepted hf).1 (hall f hf)
  · rintro ⟨accepted, reduced, hsource, hall⟩
    refine ⟨⟨accepted, reduced, hsource⟩, fun f hf => ?_⟩
    exact (name_mem_captured_iff distinct accepted hf).2 (hall f hf)

theorem exists_parse_eq_ok_iff {path : String} :
    (∃ parts, parse fields path = .ok parts) ↔
      ∃ parts, (∀ part ∈ parts, IsPart fields part) ∧ source parts = path ∧
        ∀ f ∈ fields, .capture f ∈ parts := by
  constructor
  · rintro ⟨parts, h⟩
    obtain ⟨accepted, -, hsource, hall⟩ := (parse_eq_ok_iff_reduced distinct).1 h
    exact ⟨parts, accepted, hsource, hall⟩
  · rintro ⟨parts, accepted, rfl, hall⟩
    obtain ⟨parts', hread, hcaptured⟩ := parseText_of_accepted distinct accepted
    refine ⟨parts', parse_eq_ok_iff.2 ⟨hread, fun f hf => ?_⟩⟩
    rw [hcaptured]
    exact (name_mem_captured_iff distinct accepted hf).2 (hall f hf)

theorem parse_eq_error_iff_refusal {path : String} {fault : PathFault} :
    parse fields path = .error fault ↔ Refusal fields path fault := by
  rw [parse_eq_error_iff]
  constructor
  · rintro (h | ⟨parts, f, hparts, hfind, rfl⟩)
    · obtain ⟨parts, rest, accepted, hsplit, offence⟩ := (breaks_of_parse _).1 [] fault h
      refine .offence accepted ?_ offence
      rw [← String.toList_inj, hsplit, String.toList_append, String.toList_ofList]
    · obtain ⟨accepted, -, hsource⟩ := (template_iff distinct).1 (parseText_eq_ok_iff.1 hparts)
      obtain ⟨before, after, hfields, present, absent⟩ :=
        (find?_missing_iff distinct accepted).1 hfind
      exact .missing accepted (String.toList_inj.1 hsource).symm hfields present absent
  · rintro (@⟨parts, rest, _, accepted, rfl, offence⟩ |
      @⟨parts, before, after, f, accepted, rfl, hfields, present, absent⟩)
    · obtain ⟨text, front, -, hrest⟩ := parseText_source distinct accepted []
      left
      rw [String.toList_append, String.toList_ofList, hrest, offence.parseText_eq]
      rfl
    · obtain ⟨parts', hread, hcaptured⟩ := parseText_of_accepted distinct accepted
      refine Or.inr ⟨parts', f, hread, ?_, rfl⟩
      rw [hcaptured]
      exact (find?_missing_iff distinct accepted).2 ⟨before, after, hfields, present, absent⟩

end Distinct

/-- Over path fields with distinct names, a template is accepted if and only if it is a sequence of
texts without braces and placeholders of path fields in which each path field occurs. Its parts are
then the one such sequence without an empty text and without two texts in a row. Otherwise it is
refused for its leftmost offence, or for a missing placeholder if it has none. -/
theorem parse_exact (fields : List Slot) (distinct : (fields.map (·.name)).Nodup) (path : String) :
    ((∃ parts, parse fields path = .ok parts) ↔
      ∃ parts, (∀ part ∈ parts, IsPart fields part) ∧ source parts = path ∧
        ∀ f ∈ fields, .capture f ∈ parts) ∧
    (∀ parts, parse fields path = .ok parts ↔
      (∀ part ∈ parts, IsPart fields part) ∧ IsReduced parts ∧ source parts = path ∧
        ∀ f ∈ fields, .capture f ∈ parts) ∧
    ∀ fault, parse fields path = .error fault ↔ Refusal fields path fault :=
  ⟨exists_parse_eq_ok_iff distinct, fun _ => parse_eq_ok_iff_reduced distinct,
    fun _ => parse_eq_error_iff_refusal distinct⟩

/-- A path field of a name, carried as it is. -/
def plainSlot (name : String) : Slot :=
  ⟨{ name, type := .string }, name, .string⟩

/-- Path fields for a book and a page. -/
def pageFields : List Slot :=
  [plainSlot "book", plainSlot "page"]

/-- The parts of a path with the book in front of and behind the page. -/
def pageParts : List PathPart :=
  [.text "/", .capture (plainSlot "book"), .text "/", .capture (plainSlot "page"),
    .capture (plainSlot "book")]

theorem parse_exact_page :
    (pageFields.map (·.name)).Nodup ∧
      parse pageFields "/\x7bbook\x7d/\x7bpage\x7d\x7bbook\x7d" = .ok pageParts ∧
      IsReduced pageParts ∧ source pageParts = "/\x7bbook\x7d/\x7bpage\x7d\x7bbook\x7d" ∧
      Refusal pageFields "/\x7bbook\x7d/\x7bpage-no\x7d/\x7d" (.invalid "page-no") ∧
      Refusal pageFields "/\x7bbook\x7d" (.missing "page") := by
  have distinct : (pageFields.map (·.name)).Nodup := by decide
  have hparse : parse pageFields "/\x7bbook\x7d/\x7bpage\x7d\x7bbook\x7d" = .ok pageParts := by
    decide
  obtain ⟨-, hparts, -⟩ := parse_exact pageFields distinct "/\x7bbook\x7d/\x7bpage\x7d\x7bbook\x7d"
  obtain ⟨-, reduced, hsource, -⟩ := (hparts pageParts).1 hparse
  obtain ⟨-, -, hinvalid⟩ := parse_exact pageFields distinct "/\x7bbook\x7d/\x7bpage-no\x7d/\x7d"
  obtain ⟨-, -, hmissing⟩ := parse_exact pageFields distinct "/\x7bbook\x7d"
  exact ⟨distinct, hparse, reduced, hsource, (hinvalid _).1 (by decide), (hmissing _).1 (by decide)⟩

end HttpStubs.Api.PathTemplate

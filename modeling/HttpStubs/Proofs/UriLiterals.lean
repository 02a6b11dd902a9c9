import Mathlib.Data.List.Basic
import HttpStubs.Proofs.PathReading
import HttpStubs.Proofs.UriVariables

/-!
# The URI of a method as a literal

The expression for the URI is a single-quoted literal or a template literal. `readText` reads
either, as it stands in code, into characters and variables to be filled in. It reads exactly the
expression, whatever follows it (`readText_uriExpression`), and what it reads stands for the path
template without the slashes at its start, with the value of its variable in place of each
placeholder (`uriExpression_stands_for_path`).
-/

namespace HttpStubs

/-! ## Reading template literals -/

namespace Code

/-- A piece of what a literal stands for: a character, or the value of a variable. -/
inductive Piece where
  | char (c : Char)
  | hole (name : String)
  deriving DecidableEq, Repr

/-- The characters of a piece, if the variables have the values `env`. -/
def Piece.value (env : String → String) : Piece → List Char
  | .char c => [c]
  | .hole name => (env name).toList

/-- Puts pieces in front of what a reader has read. -/
def prepend (ps : List Piece) (read : Option (List Piece × List Char)) :
    Option (List Piece × List Char) :=
  read.map fun r => (ps ++ r.1, r.2)

@[simp] theorem prepend_nil (read : Option (List Piece × List Char)) : prepend [] read = read := by
  cases read <;> rfl

@[simp] theorem prepend_prepend (ps qs : List Piece) (read : Option (List Piece × List Char)) :
    prepend ps (prepend qs read) = prepend (ps ++ qs) read := by
  cases read <;> simp [prepend]

mutual

/-- The pieces up to the closing backtick, and what follows it. -/
def readTemplate : List Char → Option (List Piece × List Char)
  | [] => none
  | '\x60' :: rest => some ([], rest)
  | '\\' :: c :: rest => (unescape? c).bind fun d => prepend [.char d] (readTemplate rest)
  | '$' :: '\x7b' :: rest => readHole [] rest
  | c :: rest => if c = '\\' then none else prepend [.char c] (readTemplate rest)

/-- The pieces from inside a substitution on; `name` holds what has been read of its variable, last
character first. Other expressions than variables are not read. -/
def readHole (name : List Char) : List Char → Option (List Piece × List Char)
  | [] => none
  | c :: rest =>
    if c = '\x7d' then
      if isBareName (String.ofList name.reverse) then
        prepend [.hole (String.ofList name.reverse)] (readTemplate rest)
      else none
    else readHole (c :: name) rest

end

/-- The pieces of the literal at the start, and what follows it. -/
def readText : List Char → Option (List Piece × List Char)
  | '\x27' :: cs => (readBody cs).map fun r => (r.1.map .char, r.2)
  | '\x60' :: cs => readTemplate cs
  | _ => none

theorem readText_literal (s : String) (rest : List Char) :
    readText ((literal s).toList ++ rest) = some (s.toList.map .char, rest) := by
  rw [toList_literal_append, readText, readBody_flatMap_escapeChar]
  rfl

theorem readTemplate_char {c : Char} {rest : List Char} (htick : c ≠ '\x60') (hslash : c ≠ '\\')
    (hdollar : c = '$' → rest.head? ≠ some '\x7b') :
    readTemplate (c :: rest) = prepend [.char c] (readTemplate rest) := by
  rw [readTemplate, if_neg hslash]
  · exact htick
  · intro d ds hc
    exact absurd hc hslash
  · rintro ds hc rfl
    exact hdollar hc rfl

theorem head?_append_ne {cs ds : List Char} {c : Char} (hcs : cs.head? ≠ some c)
    (hds : ds.head? ≠ some c) : (cs ++ ds).head? ≠ some c := by
  rw [List.head?_append, ne_eq, Option.or_eq_some_iff]
  rintro (h | h)
  · exact hcs h
  · exact hds h.2

theorem head?_escapeTemplateChars {text : List Char} (h : text.head? ≠ some '\x7b') :
    (escapeTemplateChars text).head? ≠ some '\x7b' := by
  fun_cases escapeTemplateChars text <;> simp_all

/-- Fixed text is read as it was before it was escaped. A `$` at its end must not meet a brace. -/
theorem readTemplate_escapeTemplateChars (text : List Char) {rest : List Char}
    (hrest : rest.head? ≠ some '\x7b') :
    readTemplate (escapeTemplateChars text ++ rest) =
      prepend (text.map .char) (readTemplate rest) := by
  fun_induction escapeTemplateChars text with
  | case1 => simp
  | case2 cs ih =>
    rw [List.cons_append, List.cons_append, readTemplate, ih]
    simp [unescape?]
  | case3 cs ih =>
    rw [List.cons_append, List.cons_append, readTemplate, ih]
    simp [unescape?]
  | case4 cs ih =>
    -- The brace behind an escaped `$` is read as itself.
    rw [List.cons_append, List.cons_append, readTemplate, List.cons_append,
      readTemplate_char (by decide) (by decide) fun h => absurd h (by decide), ih]
    simp [unescape?]
  | case5 c cs hslash htick hdollar ih =>
    rw [List.cons_append, readTemplate_char htick hslash, ih, prepend_prepend]
    · rfl
    · -- A `$` that is not escaped meets no brace, neither in the text nor behind it.
      intro hc
      refine head?_append_ne (head?_escapeTemplateChars fun hbrace => ?_) hrest
      obtain ⟨ds, hds⟩ := List.head?_eq_some_iff.1 hbrace
      exact hdollar ds hc hds

theorem readHole_append {name : List Char} (hname : name.all isNameChar) (read rest : List Char) :
    readHole read (name ++ '\x7d' :: rest) =
      if isBareName (String.ofList (read.reverse ++ name)) then
        prepend [.hole (String.ofList (read.reverse ++ name))] (readTemplate rest)
      else none := by
  induction name generalizing read with
  | nil => simp [readHole]
  | cons c cs ih =>
    rw [List.all_cons, Bool.and_eq_true] at hname
    have hbrace : c ≠ '\x7d' := by
      rintro rfl
      exact absurd hname.1 (by decide)
    rw [List.cons_append, readHole, if_neg hbrace, ih hname.2]
    simp

/-- A substitution is read as the variable in it. -/
theorem readTemplate_hole {name : String} (hname : isBareName name) (rest : List Char) :
    readTemplate ('$' :: '\x7b' :: (name.toList ++ '\x7d' :: rest)) =
      prepend [.hole name] (readTemplate rest) := by
  rw [readTemplate, readHole_append (all_isNameChar_of_isBareName hname)]
  simp [hname]

end Code

/-! ## Filling in path templates -/

namespace Api.PathTemplate

mutual

/-- The characters of a path template with a text for each placeholder. -/
def fill (f : String → List Char) : List Char → List Char
  | [] => []
  | c :: cs => if c = '\x7b' then fillName f [] cs else c :: fill f cs

/-- The characters from inside a placeholder on; `name` holds what has been read of it, last
character first. -/
def fillName (f : String → List Char) (name : List Char) : List Char → List Char
  | [] => '\x7b' :: name.reverse
  | c :: cs =>
    if c = '\x7d' then f (String.ofList name.reverse) ++ fill f cs else fillName f (c :: name) cs

end

variable (f : String → List Char)

/-- A part with a text for the placeholder. -/
def fillPart : PathPart → List Char
  | .text t => t.toList
  | .capture s => f s.name

theorem fill_plain {t : List Char} (plain : ∀ c ∈ t, isBrace c = false) (cs : List Char) :
    fill f (t ++ cs) = t ++ fill f cs := by
  induction t with
  | nil => rfl
  | cons c t ih =>
    have hbrace : c ≠ '\x7b' := by
      rintro rfl
      exact absurd (plain _ List.mem_cons_self) (by decide)
    rw [List.cons_append, fill, if_neg hbrace, ih fun d hd => plain d (List.mem_cons_of_mem c hd)]
    rfl

theorem fillName_plain {name : List Char} (plain : ∀ c ∈ name, isBrace c = false)
    (read cs : List Char) :
    fillName f read (name ++ '\x7d' :: cs) =
      f (String.ofList (read.reverse ++ name)) ++ fill f cs := by
  induction name generalizing read with
  | nil => simp [fillName]
  | cons c name ih =>
    have hbrace : c ≠ '\x7d' := by
      rintro rfl
      exact absurd (plain _ List.mem_cons_self) (by decide)
    rw [List.cons_append, fillName, if_neg hbrace,
      ih fun d hd => plain d (List.mem_cons_of_mem c hd)]
    simp

/-- A template is filled in part by part. -/
theorem Template.fill_eq {fields : List Slot} {cs : List Char} {parts : List PathPart}
    (h : Template fields cs parts) : fill f cs = parts.flatMap (fillPart f) := by
  induction h with
  | nil => rfl
  | text _ plain _ _ ih =>
    rw [fill_plain f plain, ih, List.flatMap_cons, fillPart, String.toList_ofList]
  | capture identifier _ _ ih =>
    rw [List.cons_append, fill, if_pos rfl,
      fillName_plain f (isIdentifier_iff.1 identifier).plain, ih]
    simp [fillPart]

end Api.PathTemplate

/-! ## The expression of a path -/

namespace Stub.Client

open Code
open Api (PathPart Slot)
open Api.PathTemplate

/-- The texts among the parts hold no braces. -/
def IsPlain (parts : List PathPart) : Prop :=
  ∀ t, .text t ∈ parts → ∀ c ∈ t.toList, isBrace c = false

/-- The pieces of a part of a path. -/
def partPieces : PathPart → List Piece
  | .text t => t.toList.map .char
  | .capture s => [.hole (uriVariable s.name)]

theorem value_partPieces (env : String → String) (part : PathPart) :
    (partPieces part).flatMap (Piece.value env) =
      fillPart (fun name => (env (uriVariable name)).toList) part := by
  cases part with
  | text t => simp [partPieces, fillPart, List.flatMap_map, Piece.value]
  | capture s => simp [partPieces, fillPart, Piece.value]

theorem IsPlain.tail {part : PathPart} {parts : List PathPart} (h : IsPlain (part :: parts)) :
    IsPlain parts :=
  fun t ht => h t (List.mem_cons_of_mem part ht)

theorem isPlain_of_template {fields : List Slot} {cs : List Char} {parts : List PathPart}
    (h : Template fields cs parts) : IsPlain parts := by
  induction h with
  | nil => nofun
  | text _ plain _ _ ih =>
    intro t ht
    rcases List.mem_cons.1 ht with heq | ht
    · rw [PathPart.text.inj heq, String.toList_ofList]
      exact plain
    · exact ih t ht
  | capture _ _ _ ih =>
    intro t ht
    exact ih t (by simpa using ht)

theorem isPlain_relativeParts {parts : List PathPart} (h : IsPlain parts) :
    IsPlain (relativeParts parts) := by
  unfold relativeParts
  split
  next text parts =>
    intro t ht
    rcases List.mem_cons.1 ht with heq | ht
    · rw [PathPart.text.inj heq, String.toList_ofList]
      intro c hc
      exact h text List.mem_cons_self c ((List.dropWhile_suffix _).subset hc)
    · exact h.tail t ht
  next => exact h

/-- The characters of some parts in a template literal. -/
def templateChars (parts : List PathPart) : List Char :=
  parts.flatMap fun part => (templatePart part).toList

theorem templateChars_text (t : String) (parts : List PathPart) :
    templateChars (.text t :: parts) = escapeTemplateChars t.toList ++ templateChars parts := by
  simp [templateChars, templatePart, escapeTemplate]

theorem templateChars_capture (s : Slot) (parts : List PathPart) :
    templateChars (.capture s :: parts) =
      '$' :: '\x7b' :: ((uriVariable s.name).toList ++ '\x7d' :: templateChars parts) := by
  simp [templateChars, templatePart]

theorem toList_template (parts : List PathPart) :
    ("\x60" ++ String.join (parts.map templatePart) ++ "\x60").toList =
      '\x60' :: (templateChars parts ++ ['\x60']) := by
  simp [templateChars, List.flatMap_map]

theorem head?_templateChars {parts : List PathPart} (h : IsPlain parts) (rest : List Char) :
    (templateChars parts ++ '\x60' :: rest).head? ≠ some '\x7b' := by
  induction parts with
  | nil => simp [templateChars]
  | cons part parts ih =>
    cases part with
    | capture s => simp [templateChars_capture]
    | text t =>
      rw [templateChars_text, List.append_assoc]
      refine head?_append_ne (head?_escapeTemplateChars fun hbrace => ?_) (ih h.tail)
      exact absurd (h t List.mem_cons_self _ (List.mem_of_head? hbrace)) (by decide)

theorem readTemplate_templateChars {parts : List PathPart} (h : IsPlain parts) (rest : List Char) :
    readTemplate (templateChars parts ++ '\x60' :: rest) =
      some (parts.flatMap partPieces, rest) := by
  induction parts with
  | nil => rfl
  | cons part parts ih =>
    have ih := ih h.tail
    cases part with
    | text t =>
      rw [templateChars_text, List.append_assoc, readTemplate_escapeTemplateChars _
        (head?_templateChars h.tail rest), ih]
      rfl
    | capture s =>
      rw [templateChars_capture, List.cons_append, List.cons_append, List.append_assoc,
        List.cons_append, readTemplate_hole (isBareName_uriVariable s.name), ih]
      rfl

/-- Without captures, the pieces are the characters of the fixed texts. -/
theorem flatMap_partPieces {parts : List PathPart} (h : parts.any isCapture = false) :
    parts.flatMap partPieces = (parts.flatMap fun part => (fixedText part).toList).map .char := by
  rw [List.map_flatMap]
  apply List.flatMap_congr
  intro part hpart
  cases part with
  | text t => rfl
  | capture s => exact absurd rfl (List.any_eq_false.1 h _ hpart)

/-- The expression is read to its end and no further. -/
theorem readText_uriExpression {path : List PathPart} (h : IsPlain path) (rest : List Char) :
    readText ((uriExpression path).toList ++ rest) =
      some ((relativeParts path).flatMap partPieces, rest) := by
  unfold uriExpression
  simp only
  split_ifs with hcapture
  · rw [toList_template, List.cons_append, List.append_assoc, readText]
    exact readTemplate_templateChars (isPlain_relativeParts h) rest
  · rw [flatMap_partPieces (by simpa using hcapture), readText_literal, String.toList_join,
      List.flatMap_map]

/-! ## What the expression stands for -/

theorem dropWhile_of_apart {fields : List Slot} {cs : List Char} {parts : List PathPart}
    (h : Template fields cs parts) (apart : startsWithText parts = false) :
    cs.dropWhile (· == '/') = cs := by
  cases h with
  | nil => rfl
  | text _ _ _ _ => cases apart
  | capture _ _ _ => rfl

/-- The slashes at the start of a template are those of its first text, as no second text follows
it. -/
theorem fill_dropWhile (f : String → List Char) {fields : List Slot} {cs : List Char}
    {parts : List PathPart} (h : Template fields cs parts) :
    fill f (cs.dropWhile (· == '/')) = (relativeParts parts).flatMap (fillPart f) := by
  cases h with
  | nil => rfl
  | @text t cs parts _ plain apart rest =>
    have hdrop : (t ++ cs).dropWhile (· == '/') = t.dropWhile (· == '/') ++ cs := by
      rw [List.dropWhile_append, dropWhile_of_apart rest apart]
      split_ifs with hempty
      · rw [List.isEmpty_iff.1 hempty, List.nil_append]
      · rfl
    have hplain : ∀ c ∈ t.dropWhile (· == '/'), isBrace c = false :=
      fun c hc => plain c ((List.dropWhile_suffix _).subset hc)
    rw [hdrop, fill_plain f hplain, rest.fill_eq, relativeParts, List.flatMap_cons, fillPart,
      String.toList_ofList, String.toList_ofList]
  | capture identifier bound rest =>
    exact (Template.capture identifier bound rest).fill_eq f

/-- The expression for the URI is one literal: a reader that starts at it stops at its end, whatever
follows it. If the variables have any values, the literal stands for the path template without the
slashes at its start and with the value of its variable for each placeholder. -/
theorem uriExpression_stands_for_path {fields : List Slot} {path : String} {parts : List PathPart}
    (h : parse fields path = .ok parts) :
    ∃ pieces, (∀ rest, readText ((uriExpression parts).toList ++ rest) = some (pieces, rest)) ∧
      ∀ env : String → String, pieces.flatMap (Piece.value env) =
        fill (fun name => (env (uriVariable name)).toList) (path.toList.dropWhile (· == '/')) := by
  have htemplate := template_of_parseText (parse_eq_ok_iff.1 h).1
  refine ⟨_, readText_uriExpression (isPlain_of_template htemplate), fun env => ?_⟩
  rw [fill_dropWhile _ htemplate, List.flatMap_assoc]
  simp only [value_partPieces]

/-- A path with what has to be escaped in a template literal, and a `$` in front of its
placeholder. -/
def pricePath : String :=
  "//it's \x60\\ $\x7bprice\x7d"

theorem pricePath_stands_for :
    parse [plainSlot "price"] pricePath =
        .ok [.text "//it's \x60\\ $", .capture (plainSlot "price")] ∧
      ∃ pieces,
        (∀ rest, readText ("\x60it's \\\x60\\\\ $$\x7buriPartPrice\x7d\x60".toList ++ rest) =
          some (pieces, rest)) ∧
        pieces.flatMap (Piece.value fun _ => "9") = "it's \x60\\ $9".toList := by
  have hparse : parse [plainSlot "price"] pricePath =
      .ok [.text "//it's \x60\\ $", .capture (plainSlot "price")] := by
    decide
  obtain ⟨pieces, hread, hvalue⟩ := uriExpression_stands_for_path hparse
  exact ⟨hparse, pieces, hread, hvalue fun _ => "9"⟩

end Stub.Client

end HttpStubs

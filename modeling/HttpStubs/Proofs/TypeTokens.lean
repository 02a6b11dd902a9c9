import Mathlib.Data.List.Basic
import HttpStubs.Proofs.LiteralReading

/-!
# Tokens of types

A type is written with names, brackets, bars, commas and blanks. `lex` cuts a text into its tokens,
where a name is as long as it can be. Which characters make up names is left open (`Alphabet`): the
cut depends only on letters being among them and separators not. What a text is cut into does not
depend on what follows it (`Lexes`), as long as no name runs on, so that texts can be put together.
-/

namespace HttpStubs.Code

/-- The tokens of a type. -/
inductive TypeToken where
  | name (text : String)
  | less
  | greater
  | leftParen
  | rightParen
  | leftBracket
  | rightBracket
  | bar
  | comma
  deriving DecidableEq, Repr

/-- The tokens of a character that stands between names: none for a blank. -/
def separator? : Char → Option (List TypeToken)
  | ' ' | '\t' | '\n' | '\r' => some []
  | '<' => some [.less]
  | '>' => some [.greater]
  | '(' => some [.leftParen]
  | ')' => some [.rightParen]
  | '[' => some [.leftBracket]
  | ']' => some [.rightBracket]
  | '|' => some [.bar]
  | ',' => some [.comma]
  | _ => none

/-- The characters that names are made of. -/
structure Alphabet where
  starts : Char → Bool
  continues : Char → Bool
  continues_of_starts : ∀ c, starts c → continues c
  starts_of_isAlpha : ∀ c, c.isAlpha → starts c
  separator?_of_continues : ∀ c, continues c → separator? c = none

namespace Alphabet

/-- Letters, digits, `_` and `$`. -/
def ascii : Alphabet where
  starts := isNameStart
  continues := isNameChar
  continues_of_starts _ := isNameChar_of_isNameStart
  starts_of_isAlpha c h := by rw [isNameStart, h, Bool.true_or, Bool.true_or]
  separator?_of_continues c h := by
    unfold separator?
    split
    case h_13 => rfl
    all_goals exact absurd h (by decide)

variable (a : Alphabet)

/-- The identifiers of an alphabet. -/
def IsName (name : String) : Prop :=
  (∃ c ∈ name.toList.head?, a.starts c) ∧ ∀ c ∈ name.toList, a.continues c

/-! ## Cutting a text into tokens -/

/-- The token of a word: none for an empty one. A word that does not start as a name is refused. -/
def word? : List Char → Option (List TypeToken)
  | [] => some []
  | c :: cs => if a.starts c then some [.name (String.ofList (c :: cs))] else none

/-- The tokens of `cs`; `word` holds what the current word has so far, last character first. -/
def lexFrom (word : List Char) : List Char → Option (List TypeToken)
  | [] => a.word? word.reverse
  | c :: cs =>
    if a.continues c then lexFrom (c :: word) cs
    else (a.word? word.reverse).bind fun front =>
      (separator? c).bind fun tokens => (lexFrom [] cs).map (front ++ tokens ++ ·)

/-- The tokens of a text. -/
def lex (text : String) : Option (List TypeToken) :=
  a.lexFrom [] text.toList

/-- No name runs on into these characters. -/
def Apart (rest : List Char) : Prop :=
  ∀ c ∈ rest.head?, a.continues c = false

/-- The text is cut into these tokens, whatever stands apart behind it. -/
def Lexes (text : String) (tokens : List TypeToken) : Prop :=
  ∀ rest, a.Apart rest →
    a.lexFrom [] (text.toList ++ rest) = (a.lexFrom [] rest).map (tokens ++ ·)

variable {a}

theorem lexFrom_append {cs : List Char} (h : ∀ c ∈ cs, a.continues c) (word rest : List Char) :
    a.lexFrom word (cs ++ rest) = a.lexFrom (cs.reverse ++ word) rest := by
  induction cs generalizing word with
  | nil => rfl
  | cons c cs ih =>
    rw [List.forall_mem_cons] at h
    rw [List.cons_append, lexFrom, if_pos h.1, ih h.2, List.reverse_cons, List.append_assoc,
      List.singleton_append]

theorem lexFrom_of_apart {rest : List Char} (h : a.Apart rest) (word : List Char) :
    a.lexFrom word rest =
      (a.word? word.reverse).bind fun front => (a.lexFrom [] rest).map (front ++ ·) := by
  cases rest with
  | nil => simp [lexFrom, word?]
  | cons c cs =>
    -- The word ends before `c` on both sides; on the right it is empty.
    have hc : ¬a.continues c := by simp [h c rfl]
    rw [lexFrom, if_neg hc, lexFrom, if_neg hc]
    simp [word?, Option.map_bind, Function.comp_def]

theorem lexFrom_separator {c : Char} {tokens : List TypeToken} (h : separator? c = some tokens)
    (rest : List Char) :
    a.lexFrom [] (c :: rest) = (a.lexFrom [] rest).map (tokens ++ ·) := by
  have hc : ¬a.continues c := by
    intro hc
    rw [a.separator?_of_continues c hc] at h
    cases h
  rw [lexFrom, if_neg hc, h]
  simp [word?]

/-! ## Putting texts together -/

theorem word?_of_isName {name : String} (h : a.IsName name) :
    a.word? name.toList = some [.name name] := by
  obtain ⟨⟨c, hc, hstart⟩, -⟩ := h
  obtain ⟨cs, hcs⟩ := List.head?_eq_some_iff.1 hc
  rw [hcs, word?, if_pos hstart, ← hcs, String.ofList_toList]

theorem lexes_name {name : String} (h : a.IsName name) : a.Lexes name [.name name] := by
  intro rest hrest
  rw [lexFrom_append h.2, List.append_nil, lexFrom_of_apart hrest, List.reverse_reverse,
    word?_of_isName h, Option.bind_some]

/-- The tokens of a text of separators only. -/
def separators? : List Char → Option (List TypeToken)
  | [] => some []
  | c :: cs => (separator? c).bind fun tokens => (separators? cs).map (tokens ++ ·)

theorem lexFrom_separators {cs : List Char} {tokens : List TypeToken}
    (h : separators? cs = some tokens) (rest : List Char) :
    a.lexFrom [] (cs ++ rest) = (a.lexFrom [] rest).map (tokens ++ ·) := by
  induction cs generalizing tokens with
  | nil =>
    obtain rfl := Option.some.inj h
    simp
  | cons c cs ih =>
    obtain ⟨front, hfront, h⟩ := Option.bind_eq_some_iff.1 h
    obtain ⟨back, hback, rfl⟩ := Option.map_eq_some_iff.1 h
    rw [List.cons_append, lexFrom_separator hfront, ih hback, Option.map_map]
    simp [Function.comp_def]

theorem apart_of_separators {cs : List Char} {tokens : List TypeToken}
    (h : separators? cs = some tokens) : a.Apart cs := by
  intro c hc
  obtain ⟨cs', rfl⟩ := List.head?_eq_some_iff.1 hc
  obtain ⟨front, hfront, -⟩ := Option.bind_eq_some_iff.1 h
  by_contra hcontinues
  rw [a.separator?_of_continues c (by simpa using hcontinues)] at hfront
  cases hfront

theorem lexes_empty : a.Lexes "" [] := by
  intro rest _
  simp

namespace Lexes

variable {text : String} {tokens : List TypeToken}

/-- A text behind separators. -/
theorem after (h : a.Lexes text tokens) (sep : String) {front : List TypeToken}
    (hsep : separators? sep.toList = some front) : a.Lexes (sep ++ text) (front ++ tokens) := by
  intro rest hrest
  rw [String.toList_append, List.append_assoc, lexFrom_separators hsep, h rest hrest,
    Option.map_map]
  simp [Function.comp_def]

/-- Two texts with separators between them, which keep a name at the end of the first from running
on. -/
theorem between (h : a.Lexes text tokens) (sep : String) {middle : List TypeToken}
    (hsep : separators? sep.toList = some middle) (hne : sep ≠ "") {more : String}
    {back : List TypeToken} (hmore : a.Lexes more back) :
    a.Lexes (text ++ sep ++ more) (tokens ++ middle ++ back) := by
  intro rest hrest
  have hapart : a.Apart (sep.toList ++ (more.toList ++ rest)) := by
    unfold Apart
    rw [List.head?_append_of_ne_nil _ (by simpa using hne)]
    exact apart_of_separators hsep
  have hback := hmore.after sep hsep rest hrest
  rw [String.toList_append, List.append_assoc] at hback
  rw [String.toList_append, String.toList_append, List.append_assoc, List.append_assoc,
    h _ hapart, hback, Option.map_map]
  simp [Function.comp_def]

/-- A text before separators. -/
theorem before (h : a.Lexes text tokens) (sep : String) {back : List TypeToken}
    (hsep : separators? sep.toList = some back) (hne : sep ≠ "") :
    a.Lexes (text ++ sep) (tokens ++ back) := by
  simpa using h.between sep hsep hne lexes_empty

theorem lex_eq (h : a.Lexes text tokens) : a.lex text = some tokens := by
  have hall := h [] nofun
  rw [List.append_nil] at hall
  rw [lex, hall]
  simp [lexFrom, word?]

end Lexes

end Alphabet

end HttpStubs.Code

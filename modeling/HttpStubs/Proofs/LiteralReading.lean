import Mathlib.Data.List.Basic
import HttpStubs.Code.Literal

/-!
# Reading literals

The characters of names, and a reader for single-quoted literals in code with what it makes of a
literal that was written: the text that the literal is for (`readLiteral_literal`).
-/

namespace HttpStubs.Code

theorem isNameChar_of_isNameStart {c : Char} (h : isNameStart c) : isNameChar c := by
  simp only [isNameStart, isNameChar, Char.isAlphanum, Bool.or_eq_true] at h ⊢
  rcases h with (h | h) | h <;> simp [h]

theorem all_isNameChar_of_isBareName {name : String} (h : isBareName name) :
    name.toList.all isNameChar := by
  unfold isBareName at h
  cases hname : name.toList with
  | nil => rfl
  | cons c cs =>
    rw [hname, Bool.and_eq_true] at h
    rw [List.all_cons, Bool.and_eq_true]
    exact ⟨isNameChar_of_isNameStart h.1, h.2⟩

theorem dropWhile_name_append {cs rest : List Char} (hcs : cs.all isNameChar)
    (hrest : ∀ c ∈ rest.head?, isNameChar c = false) :
    (cs ++ rest).dropWhile isNameChar = rest := by
  rw [List.dropWhile_append_of_pos (by simpa using hcs)]
  cases rest with
  | nil => rfl
  | cons c rest => rw [List.dropWhile_cons, hrest c rfl, if_neg Bool.false_ne_true]

theorem takeWhile_name_append {cs rest : List Char} (hcs : cs.all isNameChar)
    (hrest : ∀ c ∈ rest.head?, isNameChar c = false) :
    (cs ++ rest).takeWhile isNameChar = cs := by
  rw [List.takeWhile_append_of_pos (by simpa using hcs)]
  cases rest with
  | nil => simp
  | cons c rest => rw [List.takeWhile_cons, hrest c rfl, if_neg Bool.false_ne_true, List.append_nil]

theorem not_mem_escapeChar {c : Char} (hc : c = '\n' ∨ c = '\r') (d : Char) : c ∉ escapeChar d := by
  rcases hc with rfl | rfl
  all_goals
    unfold escapeChar
    split <;> simp_all [eq_comm]

theorem toList_literal (s : String) :
    (literal s).toList = '\x27' :: (s.toList.flatMap escapeChar ++ ['\x27']) := by
  simp [literal, escape]

theorem not_mem_literal {c : Char} (hc : c = '\n' ∨ c = '\r') (s : String) :
    c ∉ (literal s).toList := by
  have hquote : c ≠ '\x27' := by
    rcases hc with rfl | rfl <;> decide
  simp [toList_literal, hquote, not_mem_escapeChar hc]

/-- The character that a backslash and another character stand for. Numeric escapes and broken lines
are not read. -/
def unescape? : Char → Option Char
  | 'n' => some '\n'
  | 'r' => some '\r'
  | 't' => some '\t'
  | 'b' => some '\x08'
  | 'v' => some '\x0b'
  | 'f' => some '\x0c'
  | 'x' | 'u' | '\n' | '\r' | '\u2028' | '\u2029' => none
  | c => if c.isDigit then none else some c

/-- The characters up to the closing quote, and what follows it. -/
def readBody : List Char → Option (List Char × List Char)
  | [] => none
  | '\x27' :: rest => some ([], rest)
  | '\\' :: c :: rest =>
    (unescape? c).bind fun d => (readBody rest).map fun (body, rest) => (d :: body, rest)
  | c :: rest =>
    if c = '\\' ∨ c = '\n' ∨ c = '\r' then none
    else (readBody rest).map fun (body, rest) => (c :: body, rest)

/-- The text of the literal at the start, and what follows it. -/
def readLiteral : List Char → Option (String × List Char)
  | '\x27' :: cs => (readBody cs).map fun (body, rest) => (String.ofList body, rest)
  | _ => none

theorem readBody_escapeChar (c : Char) (cs : List Char) :
    readBody (escapeChar c ++ cs) = (readBody cs).map fun (body, rest) => (c :: body, rest) := by
  unfold escapeChar
  split
  next => rfl
  next => rfl
  next => rfl
  next => rfl
  next hslash hquote hlf hcr =>
    rw [List.singleton_append, readBody, if_neg]
    · rintro (h | h | h)
      · exact hslash h
      · exact hlf h
      · exact hcr h
    · exact hquote
    · intro d ds h
      exact absurd h hslash

theorem readBody_flatMap_escapeChar (cs rest : List Char) :
    readBody (cs.flatMap escapeChar ++ '\x27' :: rest) = some (cs, rest) := by
  induction cs with
  | nil => rfl
  | cons c cs ih =>
    rw [List.flatMap_cons, List.append_assoc, readBody_escapeChar, ih, Option.map_some]

theorem toList_literal_append (s : String) (rest : List Char) :
    (literal s).toList ++ rest = '\x27' :: (s.toList.flatMap escapeChar ++ '\x27' :: rest) := by
  simp [toList_literal]

theorem readLiteral_literal (s : String) (rest : List Char) :
    readLiteral ((literal s).toList ++ rest) = some (s, rest) := by
  rw [toList_literal_append, readLiteral, readBody_flatMap_escapeChar]
  simp

/-- What follows `head` at the start of a text. -/
def after? (head text : String) : Option (List Char) :=
  if head.toList.isPrefixOf text.toList then some (text.toList.drop head.toList.length) else none

theorem after?_append (head rest : String) : after? head (head ++ rest) = some rest.toList := by
  simp [after?]

end HttpStubs.Code

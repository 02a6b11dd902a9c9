import Mathlib.Data.List.Basic
import HttpStubs.Proofs.LiteralReading

/-!
# Literals and property names

A literal is one literal of its text: it has no line break, closes at its last character only, and
is read as the text (`isLiteralOf_literal`). Escaping a text character by character is the same as
replacing the four special characters one after the other, the backslash first (`escape_eq_passes`).
A property name stands as it is exactly if it is a word, and otherwise as its literal, both as a key
and in an access, so that the name can be read off either (`keys_denote_names`).
-/

namespace HttpStubs.Code

/-! ## Literals -/

/-- The characters, with `text` in place of each `c`. -/
def replaceChar (c : Char) (text cs : List Char) : List Char :=
  cs.flatMap fun d => if d = c then text else [d]

/-- The position of the first quote that does not follow a backslash. -/
def closingQuote? : List Char → Option ℕ
  | [] => none
  | '\x27' :: _ => some 0
  | '\\' :: _ :: cs => (closingQuote? cs).map (· + 2)
  | _ :: cs => (closingQuote? cs).map (· + 1)

/-- The text is one single-quoted literal, and stands for `s`. -/
structure IsLiteralOf (text s : String) : Prop where
  noLineFeed : '\n' ∉ text.toList
  noReturn : '\r' ∉ text.toList
  /-- The first quote that closes it is its last character. -/
  closed : ∃ body, text.toList = '\x27' :: (body ++ ['\x27']) ∧
    closingQuote? (body ++ ['\x27']) = some body.length
  /-- Whatever follows it in the code is left over. -/
  denotes : ∀ rest, readLiteral (text.toList ++ rest) = some (s, rest)

theorem replaceChar_flatMap (c : Char) (text : List Char) (f : Char → List Char) (cs : List Char) :
    replaceChar c text (cs.flatMap f) = cs.flatMap fun d => replaceChar c text (f d) :=
  List.flatMap_assoc

theorem replaceChar_of_ne {c d : Char} (h : d ≠ c) (text : List Char) :
    replaceChar c text [d] = [d] := by
  simp [replaceChar, h]

/-- The later passes leave alone what the earlier ones have put in: only the first replaces
backslashes, and what it and the second put in has no line break. -/
theorem escape_eq_passes (s : String) :
    (escape s).toList =
      replaceChar '\r' ['\\', 'r'] (replaceChar '\n' ['\\', 'n']
        (replaceChar '\x27' ['\\', '\x27'] (replaceChar '\\' ['\\', '\\'] s.toList))) := by
  have hchar : ∀ c, escapeChar c = replaceChar '\r' ['\\', 'r'] (replaceChar '\n' ['\\', 'n']
      (replaceChar '\x27' ['\\', '\x27'] (if c = '\\' then ['\\', '\\'] else [c]))) := by
    intro c
    unfold escapeChar
    split
    next => decide
    next => decide
    next => decide
    next => decide
    next hslash hquote hlf hcr =>
      rw [if_neg hslash, replaceChar_of_ne hquote, replaceChar_of_ne hlf, replaceChar_of_ne hcr]
  have hfirst : replaceChar '\\' ['\\', '\\'] s.toList =
      s.toList.flatMap fun c => if c = '\\' then ['\\', '\\'] else [c] := rfl
  rw [escape, String.toList_ofList, hfirst, replaceChar_flatMap, replaceChar_flatMap,
    replaceChar_flatMap]
  exact List.flatMap_congr fun c _ => hchar c

theorem closingQuote?_escapeChar (c : Char) (cs : List Char) :
    closingQuote? (escapeChar c ++ cs) =
      (closingQuote? cs).map (· + (escapeChar c).length) := by
  unfold escapeChar
  split
  next => rfl
  next => rfl
  next => rfl
  next => rfl
  next hslash hquote hlf hcr =>
    rw [List.singleton_append, closingQuote?]
    · rfl
    · exact hquote
    · intro d ds h
      exact absurd h hslash

theorem closingQuote?_flatMap_escapeChar (cs rest : List Char) :
    closingQuote? (cs.flatMap escapeChar ++ '\x27' :: rest) =
      some (cs.flatMap escapeChar).length := by
  induction cs with
  | nil => rfl
  | cons c cs ih =>
    rw [List.flatMap_cons, List.append_assoc, closingQuote?_escapeChar, ih, Option.map_some,
      List.length_append, Nat.add_comm]

theorem isLiteralOf_literal (s : String) : IsLiteralOf (literal s) s where
  noLineFeed := not_mem_literal (.inl rfl) s
  noReturn := not_mem_literal (.inr rfl) s
  closed := ⟨_, toList_literal s, closingQuote?_flatMap_escapeChar _ []⟩
  denotes := readLiteral_literal s

/-! ## Words -/

/-- `[A-Za-z_$]`. -/
def IsWordStart (c : Char) : Prop :=
  ('A' ≤ c ∧ c ≤ 'Z') ∨ ('a' ≤ c ∧ c ≤ 'z') ∨ c = '_' ∨ c = '$'

/-- `[A-Za-z0-9_$]`. -/
def IsWordChar (c : Char) : Prop :=
  IsWordStart c ∨ ('0' ≤ c ∧ c ≤ '9')

/-- The texts that match `[A-Za-z_$][A-Za-z0-9_$]*`. -/
inductive IsWord : List Char → Prop where
  | cons {c : Char} {cs : List Char} (start : IsWordStart c) (rest : ∀ d ∈ cs, IsWordChar d) :
    IsWord (c :: cs)

theorem isAlpha_iff {c : Char} :
    c.isAlpha = true ↔ ('A' ≤ c ∧ c ≤ 'Z') ∨ ('a' ≤ c ∧ c ≤ 'z') := by
  show (decide ('A' ≤ c ∧ c ≤ 'Z') || (decide ('a' ≤ c) && decide (c ≤ 'z'))) = true ↔ _
  simp only [Bool.or_eq_true, Bool.and_eq_true, decide_eq_true_eq]

theorem isDigit_iff {c : Char} : c.isDigit = true ↔ '0' ≤ c ∧ c ≤ '9' := by
  show (decide ('0' ≤ c) && decide (c ≤ '9')) = true ↔ _
  simp only [Bool.and_eq_true, decide_eq_true_eq]

theorem isNameStart_iff {c : Char} : isNameStart c = true ↔ IsWordStart c := by
  simp only [isNameStart, IsWordStart, Bool.or_eq_true, beq_iff_eq, isAlpha_iff, or_assoc]

theorem isNameChar_iff {c : Char} : isNameChar c = true ↔ IsWordChar c := by
  have hchar : isNameChar c = (isNameStart c || c.isDigit) := by
    show ((c.isAlpha || c.isDigit) || c == '_' || c == '$') = _
    rw [Bool.or_right_comm c.isAlpha, Bool.or_right_comm (c.isAlpha || c == '_'), isNameStart]
  rw [hchar, Bool.or_eq_true, isNameStart_iff, isDigit_iff, IsWordChar]

theorem isBareName_iff (name : String) : isBareName name = true ↔ IsWord name.toList := by
  unfold isBareName
  cases name.toList with
  | nil => exact iff_of_false Bool.false_ne_true nofun
  | cons c cs =>
    simp only [Bool.and_eq_true, List.all_eq_true, isNameStart_iff, isNameChar_iff]
    constructor
    · rintro ⟨start, rest⟩
      exact .cons start rest
    · rintro ⟨start, rest⟩
      exact ⟨start, rest⟩

/-! ## Keys and accesses -/

/-- Where an access has its key. -/
inductive KeyPlace where
  | afterDot
  | inBrackets
  deriving DecidableEq, Repr

/-- The key of an access to `object`, as it is written, and where it stands. -/
def writtenKey? (object access : String) : Option (KeyPlace × String) :=
  match after? object access with
  | some ('.' :: key) => some (.afterDot, String.ofList key)
  | some ('[' :: key) =>
    if key.getLast? = some ']' then some (.inBrackets, String.ofList key.dropLast) else none
  | _ => none

/-- The name that a key stands for: the text of a literal, and any other key itself. -/
def nameOfKey (key : String) : String :=
  match readLiteral key.toList with
  | some (name, []) => name
  | _ => key

theorem propertyKey_of_word {name : String} (h : IsWord name.toList) : propertyKey name = name := by
  rw [propertyKey, if_pos ((isBareName_iff name).2 h)]

theorem propertyKey_of_not_word {name : String} (h : ¬IsWord name.toList) :
    propertyKey name = literal name := by
  rw [propertyKey, if_neg (mt (isBareName_iff name).1 h)]

theorem length_le_flatMap_escapeChar (cs : List Char) :
    cs.length ≤ (cs.flatMap escapeChar).length := by
  induction cs with
  | nil => exact Nat.le_refl 0
  | cons c cs ih =>
    have hc : 1 ≤ (escapeChar c).length := by
      unfold escapeChar
      split <;> simp
    rw [List.flatMap_cons, List.length_append, List.length_cons]
    omega

theorem literal_ne (s : String) : literal s ≠ s := by
  intro h
  have hlen := congrArg (·.toList.length) h
  have hle := length_le_flatMap_escapeChar s.toList
  simp only [toList_literal, List.length_cons, List.length_append, List.length_nil] at hlen
  omega

theorem writtenKey?_of_word (object : String) {name : String} (h : IsWord name.toList) :
    writtenKey? object (propertyAccess object name) = some (.afterDot, name) := by
  rw [propertyAccess, if_pos ((isBareName_iff name).2 h), writtenKey?, String.append_assoc,
    after?_append]
  simp

theorem writtenKey?_of_not_word (object : String) {name : String} (h : ¬IsWord name.toList) :
    writtenKey? object (propertyAccess object name) = some (.inBrackets, literal name) := by
  rw [propertyAccess, if_neg (mt (isBareName_iff name).1 h), writtenKey?, String.append_assoc,
    String.append_assoc, after?_append]
  simp

theorem readLiteral_of_word {cs : List Char} (h : IsWord cs) : readLiteral cs = none := by
  obtain ⟨start, -⟩ := h
  unfold readLiteral
  split
  next hcs =>
    obtain ⟨rfl, -⟩ := List.cons.inj hcs
    exact absurd (isNameStart_iff.2 start) (by decide)
  next => rfl

theorem nameOfKey_propertyKey (name : String) : nameOfKey (propertyKey name) = name := by
  by_cases h : IsWord name.toList
  · rw [propertyKey_of_word h, nameOfKey, readLiteral_of_word h]
  · have hread := readLiteral_literal name []
    rw [List.append_nil] at hread
    rw [propertyKey_of_not_word h, nameOfKey, hread]

theorem propertyKey_injective : Function.Injective propertyKey :=
  Function.LeftInverse.injective nameOfKey_propertyKey

/-- The key of an access is the key that the name has anywhere. -/
theorem exists_writtenKey? (object name : String) :
    ∃ place, writtenKey? object (propertyAccess object name) = some (place, propertyKey name) := by
  by_cases h : IsWord name.toList
  · exact ⟨.afterDot, by rw [writtenKey?_of_word object h, propertyKey_of_word h]⟩
  · exact ⟨.inBrackets, by rw [writtenKey?_of_not_word object h, propertyKey_of_not_word h]⟩

theorem propertyAccess_injective (object : String) :
    Function.Injective (propertyAccess object) := by
  intro a b h
  obtain ⟨place, ha⟩ := exists_writtenKey? object a
  obtain ⟨place', hb⟩ := exists_writtenKey? object b
  rw [h, hb, Option.some.injEq, Prod.mk.injEq] at ha
  exact propertyKey_injective ha.2.symm

/-- Every literal is one literal of its text, made by replacing the backslashes, then the quotes,
then the line breaks. A property name is written as it is exactly if it is a word, as a key and
after the dot of an access; any other name is written as its literal, as a key and in the brackets
of an access. No two names are written alike. -/
theorem keys_denote_names :
    (∀ s, (escape s).toList =
        replaceChar '\r' ['\\', 'r'] (replaceChar '\n' ['\\', 'n']
          (replaceChar '\x27' ['\\', '\x27'] (replaceChar '\\' ['\\', '\\'] s.toList))) ∧
        IsLiteralOf (literal s) s) ∧
      (∀ object name,
        (IsWord name.toList ∧ propertyKey name = name ∧
            writtenKey? object (propertyAccess object name) = some (.afterDot, name)) ∨
          (¬IsWord name.toList ∧ propertyKey name ≠ name ∧ IsLiteralOf (propertyKey name) name ∧
            writtenKey? object (propertyAccess object name) =
              some (.inBrackets, propertyKey name))) ∧
      Function.Injective propertyKey ∧ ∀ object, Function.Injective (propertyAccess object) := by
  refine ⟨fun s => ⟨escape_eq_passes s, isLiteralOf_literal s⟩, fun object name => ?_,
    propertyKey_injective, propertyAccess_injective⟩
  by_cases h : IsWord name.toList
  · exact .inl ⟨h, propertyKey_of_word h, writtenKey?_of_word object h⟩
  · refine .inr ⟨h, ?_⟩
    rw [propertyKey_of_not_word h]
    exact ⟨literal_ne name, isLiteralOf_literal name, writtenKey?_of_not_word object h⟩

end HttpStubs.Code

import Mathlib.Data.List.Nodup
import HttpStubs.Proofs.LineBreaks
import HttpStubs.Proofs.LiteralReading
import HttpStubs.Proofs.RouteCaptures
import HttpStubs.Stub.Client

/-!
# The variables of path fields

The variable of a path field is `uriPart` and the field's name with its first letter in upper case.
It is always an identifier (`isBareName_uriVariable`), but not always the field's own: two names
have the same variable if they differ in the case of the first letter only (`uriVariable_eq_iff`).
-/

namespace HttpStubs

/-! ## The upper case of ASCII characters -/

namespace Text

theorem upperExpansions_beyond : ∀ p ∈ upperExpansions, 128 ≤ p.1 := by
  decide

theorem upperRuns_beyond : ∀ r ∈ upperRuns.tail, 128 ≤ r.first := by
  decide +kernel

theorem upperRuns_eq : upperRuns = ⟨0x61, 0x7a, 1, -32⟩ :: upperRuns.tail :=
  rfl

theorem isLower_iff {c : Char} : c.isLower = true ↔ 97 ≤ c.toNat ∧ c.toNat ≤ 122 := by
  show (decide (97 ≤ c.toNat) && decide (c.toNat ≤ 122)) = true ↔ _
  rw [Bool.and_eq_true, decide_eq_true_iff, decide_eq_true_iff]

theorem toNat_toUpper {c : Char} (h : c.toNat < 128) :
    c.toUpper.toNat = if c.isLower then c.toNat - 32 else c.toNat := by
  have hall : ∀ n < 128, (Char.ofNat n).toUpper.toNat =
      if (Char.ofNat n).isLower then n - 32 else n := by
    decide
  have hc := hall c.toNat h
  rwa [Char.ofNat_toNat] at hc

theorem toUpper_of_lt {c : Char} (h : c.toNat < 128) : toUpper c = [c.toUpper] := by
  have hlookup : upperExpansions.lookup c.toNat = none := by
    rw [List.lookup_eq_none_iff]
    intro p hp
    have hbeyond := upperExpansions_beyond p hp
    simp only [bne_iff_ne, ne_eq]
    omega
  have hrest : upperRuns.tail.findSome? (·.map? c.toNat) = none := by
    rw [List.findSome?_eq_none_iff]
    intro r hr
    have hbeyond := upperRuns_beyond r hr
    rw [Run.map?, if_neg]
    simp only [Bool.and_eq_true, decide_eq_true_eq]
    omega
  have hupper : c.toUpper = Char.ofNat (if c.isLower then c.toNat - 32 else c.toNat) := by
    rw [← toNat_toUpper h, Char.ofNat_toNat]
  unfold toUpper mapCase
  rw [hlookup, upperRuns_eq, List.findSome?_cons, hrest, hupper, Run.map?]
  by_cases hlower : c.isLower
  · have hrange := isLower_iff.1 hlower
    have hoffset : ((c.toNat : Int) + -32).toNat = c.toNat - 32 := by omega
    simp [hlower, hrange, hoffset, Nat.mod_one]
  · have hrange := mt isLower_iff.2 hlower
    simp [hlower, hrange]

/-- Which ASCII characters have the same upper case. -/
theorem toUpper_eq_toUpper_iff {c d : Char} (hc : c.toNat < 128) (hd : d.toNat < 128) :
    c.toUpper = d.toUpper ↔
      c = d ∨ (c.isLower ∧ d = c.toUpper) ∨ (d.isLower ∧ c = d.toUpper) := by
  have hc' := toNat_toUpper hc
  have hd' := toNat_toUpper hd
  simp only [← Char.toNat_inj, isLower_iff] at hc' hd' ⊢
  split_ifs at hc' hd' <;> omega

end Text

/-! ## Capitalised names -/

namespace Code

theorem toNat_of_isNameChar {c : Char} (h : isNameChar c) : c.toNat < 128 := by
  have hupper : c.isUpper = true → c.toNat ≤ 90 := fun h => (of_decide_eq_true h).2
  have hlower : c.isLower = true → c.toNat ≤ 122 := fun h => (Text.isLower_iff.1 h).2
  have hdigit : c.isDigit = true → c.toNat ≤ 57 := by
    intro h
    exact of_decide_eq_true (Bool.and_eq_true_iff.1 h).2
  rw [isNameChar, Bool.or_eq_true, Bool.or_eq_true, beq_iff_eq, beq_iff_eq] at h
  rcases h with (h | rfl) | rfl
  · rcases Bool.or_eq_true_iff.1 h with h | h
    · rcases Bool.or_eq_true_iff.1 h with h | h
      · exact Nat.lt_of_le_of_lt (hupper h) (by decide)
      · exact Nat.lt_of_le_of_lt (hlower h) (by decide)
    · exact Nat.lt_of_le_of_lt (hdigit h) (by decide)
  · decide
  · decide

theorem isNameChar_toUpper {c : Char} (h : isNameChar c) : isNameChar c.toUpper := by
  have hall : ∀ n < 128, isNameChar (Char.ofNat n) → isNameChar (Char.ofNat n).toUpper := by
    decide
  have hc := hall c.toNat (toNat_of_isNameChar h)
  rw [Char.ofNat_toNat] at hc
  exact hc h

theorem mapFirst_toUpper {c : Char} (h : isNameChar c) (cs : List Char) :
    Text.mapFirst Text.toUpper (c :: cs) = c.toUpper :: cs := by
  rw [Text.mapFirst, Text.toUpper_of_lt (toNat_of_isNameChar h), List.singleton_append]

theorem all_isNameChar_pascalName (name : String) : (pascalName name).toList.all isNameChar := by
  rw [pascalName, String.toList_ofList, List.all_flatMap, List.all_eq_true]
  intro part hpart
  have hchars := @nameChar_of_mem_nameParts [] _ rfl part hpart
  cases part with
  | nil => rfl
  | cons c cs =>
    rw [List.all_cons, Bool.and_eq_true] at hchars
    rw [mapFirst_toUpper hchars.1, List.all_cons, Bool.and_eq_true]
    exact ⟨isNameChar_toUpper hchars.1, hchars.2⟩

/-- A name without characters to drop is one part. -/
theorem nameParts_of_all {part cs : List Char} (h : cs.all isNameChar) :
    nameParts part cs = [part.reverse ++ cs] := by
  induction cs generalizing part with
  | nil => simp [nameParts]
  | cons c cs ih =>
    rw [List.all_cons, Bool.and_eq_true] at h
    rw [nameParts, if_pos h.1, ih h.2]
    simp

end Code

/-! ## Variables -/

namespace Stub.Client

open Code
open Api.PathTemplate (isIdentifier)

/-- The second name is the first with its first letter, a lower case one, in upper case. -/
def Capitalizes (a b : String) : Prop :=
  ∃ c cs, c.isLower ∧ a = String.ofList (c :: cs) ∧ b = String.ofList (c.toUpper :: cs)

theorem isBareName_uriVariable (name : String) : isBareName (uriVariable name) := by
  have hvariable : (uriVariable name).toList = "uriPart".toList ++ (pascalName name).toList := by
    rw [uriVariable, String.toList_append]
  rw [isBareName, hvariable]
  change (isNameStart 'u' && ("riPart".toList ++ (pascalName name).toList).all isNameChar) = true
  rw [List.all_append, all_isNameChar_pascalName]
  decide

theorem all_isNameChar_of_isIdentifier {name : List Char} (h : isIdentifier name) :
    name.all isNameChar := by
  have hbare : isBareName (String.ofList name) :=
    Server.isBareName_of_isIdentifier (by rwa [String.toList_ofList])
  simpa using all_isNameChar_of_isBareName hbare

theorem toList_uriVariable {c : Char} {cs : List Char} (h : isIdentifier (c :: cs)) :
    (uriVariable (String.ofList (c :: cs))).toList = "uriPart".toList ++ c.toUpper :: cs := by
  have hall := all_isNameChar_of_isIdentifier h
  have hhead : isNameChar c := by
    rw [List.all_cons, Bool.and_eq_true] at hall
    exact hall.1
  rw [uriVariable, pascalName, String.toList_ofList, nameParts_of_all hall, List.reverse_nil,
    List.nil_append, List.flatMap_singleton, mapFirst_toUpper hhead, String.toList_append,
    @String.toList_ofList (c.toUpper :: cs)]

/-- Two identifiers have the same variable only if the case of the first letter tells them apart. -/
theorem uriVariable_eq_iff {a b : String} (ha : isIdentifier a.toList)
    (hb : isIdentifier b.toList) :
    uriVariable a = uriVariable b ↔ a = b ∨ Capitalizes a b ∨ Capitalizes b a := by
  obtain ⟨as, rfl⟩ : ∃ as, a = String.ofList as := ⟨a.toList, by simp⟩
  obtain ⟨bs, rfl⟩ : ∃ bs, b = String.ofList bs := ⟨b.toList, by simp⟩
  rw [String.toList_ofList] at ha hb
  cases as with
  | nil => cases ha
  | cons c cs =>
    cases bs with
    | nil => cases hb
    | cons d ds =>
      have hc := all_isNameChar_of_isIdentifier ha
      have hd := all_isNameChar_of_isIdentifier hb
      rw [List.all_cons, Bool.and_eq_true] at hc hd
      have hupper := Text.toUpper_eq_toUpper_iff (toNat_of_isNameChar hc.1)
        (toNat_of_isNameChar hd.1)
      rw [← String.toList_inj, toList_uriVariable ha, toList_uriVariable hb,
        List.append_right_inj, List.cons.injEq, hupper]
      simp only [Capitalizes, String.ofList_inj, List.cons.injEq]
      constructor
      · rintro ⟨rfl | ⟨hlower, rfl⟩ | ⟨hlower, rfl⟩, rfl⟩
        · exact .inl ⟨rfl, rfl⟩
        · exact .inr (.inl ⟨c, cs, hlower, ⟨rfl, rfl⟩, rfl, rfl⟩)
        · exact .inr (.inr ⟨d, cs, hlower, ⟨rfl, rfl⟩, rfl, rfl⟩)
      · rintro (⟨rfl, rfl⟩ | ⟨_, _, hlower, ⟨rfl, rfl⟩, rfl, rfl⟩ |
          ⟨_, _, hlower, ⟨rfl, rfl⟩, rfl, rfl⟩)
        · exact ⟨.inl rfl, rfl⟩
        · exact ⟨.inr (.inl ⟨hlower, rfl⟩), rfl⟩
        · exact ⟨.inr (.inr ⟨hlower, rfl⟩), rfl⟩

/-- The words that cannot name a variable. -/
def reservedWords : List String :=
  ["await", "break", "case", "catch", "class", "const", "continue", "debugger", "default", "delete",
    "do", "else", "enum", "export", "extends", "false", "finally", "for", "function", "if",
    "implements", "import", "in", "instanceof", "interface", "let", "new", "null", "package",
    "private", "protected", "public", "return", "static", "super", "switch", "this", "throw",
    "true", "try", "typeof", "var", "void", "while", "with", "yield"]

theorem uriVariable_ne {name other : String}
    (h : "uriPart".toList.isPrefixOf other.toList = false) : uriVariable name ≠ other := by
  rintro rfl
  rw [uriVariable, String.toList_append] at h
  simp at h

theorem uriVariable_not_mem_reservedWords (name : String) : uriVariable name ∉ reservedWords := by
  have hwords : ∀ word ∈ reservedWords, "uriPart".toList.isPrefixOf word.toList = false := by
    decide
  intro hmem
  exact uriVariable_ne (hwords _ hmem) rfl

theorem Capitalizes.ne {a b : String} (h : Capitalizes a b) : a ≠ b := by
  obtain ⟨c, cs, hlower, rfl, rfl⟩ := h
  have hrange := Text.isLower_iff.1 hlower
  have hupper := Text.toNat_toUpper (Nat.lt_of_le_of_lt hrange.2 (by decide))
  rw [if_pos hlower] at hupper
  rw [ne_eq, String.ofList_inj, List.cons.injEq, not_and]
  intro heq
  rw [← heq] at hupper
  omega

theorem nodup_uriVariable_iff {names : List String} (distinct : names.Nodup)
    (identifiers : ∀ name ∈ names, isIdentifier name.toList) :
    (names.map uriVariable).Nodup ↔ ∀ a ∈ names, ∀ b ∈ names, ¬Capitalizes a b := by
  rw [List.nodup_map_iff_inj_on distinct]
  constructor
  · intro h a ha b hb hcap
    have heq := (uriVariable_eq_iff (identifiers a ha) (identifiers b hb)).2 (.inr (.inl hcap))
    exact hcap.ne (h a ha b hb heq)
  · intro h a ha b hb heq
    rcases (uriVariable_eq_iff (identifiers a ha) (identifiers b hb)).1 heq with rfl | hcap | hcap
    · rfl
    · exact absurd hcap (h a ha b hb)
    · exact absurd hcap (h b hb a ha)

end Stub.Client

end HttpStubs

import HttpStubs.Json.Reader
import HttpStubs.Proofs.Traversal

/-!
# The text of JSON values

`Json.text` writes a value without blanks between its tokens. The reader gives back each value that
has a text (`ofText?_text`). The scanner learns only from the next character that a word or a number
has ended, so reading the text of a value leaves it in a state that merely behaves, at all that may
follow a value, like the state in which the value is complete (`Settles`). With this the proof
follows the value: `Denotes` passes from the items to the array and from the members to the object.
-/

namespace HttpStubs.Json

/-! ## Numbers -/

namespace Number

/-- The end of a number literal from the point on. -/
def writeFraction : List Nat → List Char
  | [] => []
  | ds => '.' :: ds.map Nat.digitChar

/-- The end of a number literal from its exponent on. -/
def writeExponent : Option Int → List Char
  | none => []
  | some (.ofNat e) => 'e' :: Nat.toDigits 10 e
  | some (.negSucc e) => 'e' :: '-' :: Nat.toDigits 10 (e + 1)

/-- A number literal from its parts. -/
def write (n : Number) : List Char :=
  (if n.negative then ['-'] else []) ++
    (Nat.toDigits 10 n.whole ++ (writeFraction n.fraction ++ writeExponent n.exponent))

theorem isDigit_toDigits (n : Nat) : ∀ c ∈ Nat.toDigits 10 n, c.isDigit = true :=
  fun _ => Nat.isDigit_of_mem_toDigits (by decide) (by decide)

theorem toDigits_ne_cons (n : Nat) {c : Char} (h : c.isDigit = false) (cs : List Char) :
    Nat.toDigits 10 n ≠ c :: cs := by
  intro heq
  have hdigit := isDigit_toDigits n c (by simp [heq])
  simp [h] at hdigit

/-- Only zero starts with the digit zero. -/
theorem toDigits_ne_zero_cons (n : Nat) (c : Char) (cs : List Char) :
    Nat.toDigits 10 n ≠ '0' :: c :: cs := by
  induction n using Nat.strongRecOn generalizing c cs with
  | ind n ih =>
    by_cases hsmall : n < 10
    · simp [Nat.toDigits_of_lt_base hsmall]
    · rw [Nat.toDigits_of_base_le (by decide) (by omega)]
      intro h
      obtain ⟨d, ds, hfront⟩ := List.exists_cons_of_ne_nil (@Nat.toDigits_ne_nil (n / 10) 10)
      rw [hfront, List.cons_append, List.cons.injEq] at h
      obtain ⟨rfl, -⟩ := h
      cases ds with
      | cons d ds => exact ih (n / 10) (by omega) d ds hfront
      | nil =>
        have hvalue : Nat.ofDigitChars 10 (Nat.toDigits 10 (n / 10)) 0 = n / 10 :=
          Nat.ofDigitChars_ten_toDigits
        rw [hfront] at hvalue
        have hzero : n / 10 = 0 := hvalue.symm
        omega

theorem digits?_toDigits (n : Nat) : ofTail.digits? (Nat.toDigits 10 n) = some n := by
  have hall : (Nat.toDigits 10 n).all Char.isDigit = true := by simpa using isDigit_toDigits n
  rw [ofTail.digits?, hall, Nat.ofDigitChars_ten_toDigits]
  simp [Nat.toDigits_ne_nil]

theorem exponent?_writeExponent (e : Option Int) : ofTail.exponent? (writeExponent e) = some e := by
  rcases e with _ | e | e
  · rfl
  · -- the first digit is not taken for a sign
    rw [writeExponent, ofTail.exponent?, if_pos (by decide), digits?_toDigits]
    · rfl
    · exact toDigits_ne_cons e (by decide)
    · exact toDigits_ne_cons e (by decide)
  · simp [writeExponent, ofTail.exponent?, digits?_toDigits, Int.negSucc_eq]

theorem takeWhile_tail (fraction : List Nat) (e : Option Int) :
    (writeFraction fraction ++ writeExponent e).takeWhile Char.isDigit = [] := by
  rcases fraction with _ | _ <;> rcases e with _ | _ | _ <;> rfl

theorem dropWhile_tail (fraction : List Nat) (e : Option Int) :
    (writeFraction fraction ++ writeExponent e).dropWhile Char.isDigit =
      writeFraction fraction ++ writeExponent e := by
  rcases fraction with _ | _ <;> rcases e with _ | _ | _ <;> rfl

theorem digitValue_digitChar : ∀ d < 10, d.digitChar.toNat - '0'.toNat = d := by
  decide

theorem ofTail_write (negative : Bool) (whole : Nat) {fraction : List Nat} (e : Option Int)
    (h : ∀ d ∈ fraction, d < 10) :
    ofTail negative whole (writeFraction fraction ++ writeExponent e) =
      some ⟨negative, whole, fraction, e⟩ := by
  cases fraction with
  | nil =>
    rw [writeFraction, List.nil_append, ofTail, exponent?_writeExponent]
    · rfl
    · rcases e with _ | _ | _ <;> simp [writeExponent]
  | cons d ds =>
    have hdigits : ∀ c ∈ (d :: ds).map Nat.digitChar, c.isDigit = true := by
      simpa [Nat.isDigit_digitChar] using h
    have hvalues : ((d :: ds).map Nat.digitChar).map (fun c => c.toNat - '0'.toNat) = d :: ds := by
      rw [List.map_map]
      exact (List.map_congr_left fun d hd => digitValue_digitChar d (h d hd)).trans (List.map_id _)
    have htake := takeWhile_tail [] e
    have hdrop := dropWhile_tail [] e
    rw [writeFraction, List.nil_append] at htake hdrop
    rw [writeFraction, List.cons_append, ofTail, List.takeWhile_append_of_pos hdigits,
      List.dropWhile_append_of_pos hdigits, htake, hdrop, List.append_nil]
    · show (do
        let exponent ← ofTail.exponent? (writeExponent e)
        return (⟨negative, whole, _, exponent⟩ : Number)) = _
      rw [exponent?_writeExponent, hvalues]
      rfl
    · simp

/-- Reads a number literal after its sign. -/
def ofUnsigned? (negative : Bool) (cs : List Char) : Option Number :=
  match cs.takeWhile Char.isDigit, cs.dropWhile Char.isDigit with
  | [], _ => none
  | '0' :: _ :: _, _ => none
  | ds, rest => ofTail negative (Nat.ofDigitChars 10 ds 0) rest

theorem ofChars?_unsigned {cs : List Char} (h : ∀ rest, cs ≠ '-' :: rest) :
    ofChars? cs = ofUnsigned? false cs := by
  unfold ofChars?
  split
  next heq =>
    split at heq
    next => exact absurd rfl (h _)
    next =>
      cases heq
      rfl

theorem ofUnsigned?_write (negative : Bool) (whole : Nat) {fraction : List Nat} (e : Option Int)
    (h : ∀ d ∈ fraction, d < 10) :
    ofUnsigned? negative (Nat.toDigits 10 whole ++ (writeFraction fraction ++ writeExponent e)) =
      some ⟨negative, whole, fraction, e⟩ := by
  have hdigits := isDigit_toDigits whole
  rw [ofUnsigned?, List.takeWhile_append_of_pos hdigits, List.dropWhile_append_of_pos hdigits,
    takeWhile_tail, dropWhile_tail, List.append_nil]
  split
  next heq => exact absurd heq Nat.toDigits_ne_nil
  next heq => exact absurd heq (toDigits_ne_zero_cons whole _ _)
  next =>
    rw [Nat.ofDigitChars_ten_toDigits]
    exact ofTail_write negative whole e h

theorem ofChars?_write (n : Number) (h : ∀ d ∈ n.fraction, d < 10) :
    ofChars? n.write = some n := by
  obtain ⟨negative, whole, fraction, e⟩ := n
  have hunsigned := ofUnsigned?_write negative whole e h
  cases negative with
  | true => exact hunsigned
  | false =>
    rw [← hunsigned]
    apply ofChars?_unsigned
    intro rest heq
    obtain ⟨d, ds, hwhole⟩ := List.exists_cons_of_ne_nil (@Nat.toDigits_ne_nil whole 10)
    simp only [write, hwhole, Bool.false_eq_true, if_false, List.nil_append, List.cons_append,
      List.cons.injEq] at heq
    exact toDigits_ne_cons whole (by decide) ds (heq.1 ▸ hwhole)

theorem isNumberChar_of_isDigit {c : Char} (h : c.isDigit = true) : Scan.isNumberChar c = true := by
  simp [Scan.isNumberChar, h]

theorem isNumberChar_toDigits (n : Nat) : ∀ c ∈ Nat.toDigits 10 n, Scan.isNumberChar c = true :=
  fun c hc => isNumberChar_of_isDigit (isDigit_toDigits n c hc)

theorem isNumberChar_writeFraction {fraction : List Nat} (h : ∀ d ∈ fraction, d < 10) :
    ∀ c ∈ writeFraction fraction, Scan.isNumberChar c = true := by
  cases fraction with
  | nil => simp [writeFraction]
  | cons d ds =>
    rw [writeFraction, List.forall_mem_cons, List.forall_mem_map]
    · refine ⟨by decide, fun d hd => isNumberChar_of_isDigit ?_⟩
      simpa [Nat.isDigit_digitChar] using h d hd
    · simp

theorem isNumberChar_writeExponent (e : Option Int) :
    ∀ c ∈ writeExponent e, Scan.isNumberChar c = true := by
  rcases e with _ | e | e
  · simp [writeExponent]
  · rw [writeExponent, List.forall_mem_cons]
    exact ⟨by decide, isNumberChar_toDigits e⟩
  · rw [writeExponent, List.forall_mem_cons, List.forall_mem_cons]
    exact ⟨by decide, by decide, isNumberChar_toDigits (e + 1)⟩

theorem write_eq_cons {n : Number} (digits : ∀ d ∈ n.fraction, d < 10) :
    ∃ c cs, n.write = c :: cs ∧ (c.isDigit = true ∨ c = '-') ∧
      ∀ c ∈ cs, Scan.isNumberChar c = true := by
  have htail := List.forall_mem_append.2
    ⟨isNumberChar_writeFraction digits, isNumberChar_writeExponent n.exponent⟩
  have hwhole := isNumberChar_toDigits n.whole
  obtain ⟨negative, whole, fraction, e⟩ := n
  cases negative with
  | true =>
    have hrest := List.forall_mem_append.2 ⟨hwhole, htail⟩
    exact ⟨'-', _, rfl, .inr rfl, hrest⟩
  | false =>
    obtain ⟨d, ds, hdigits⟩ := List.exists_cons_of_ne_nil (@Nat.toDigits_ne_nil whole 10)
    have hd := isDigit_toDigits whole d (by simp [hdigits])
    simp only [hdigits, List.forall_mem_cons] at hwhole
    refine ⟨d, ds ++ _, ?_, .inl hd, List.forall_mem_append.2 ⟨hwhole.2, htail⟩⟩
    simp [write, hdigits]

theorem le_ofDigitChars (cs : List Char) (start : Nat) : start ≤ Nat.ofDigitChars 10 cs start := by
  induction cs generalizing start with
  | nil => exact Nat.le_refl start
  | cons c cs ih =>
    have hle := ih (10 * start + (c.toNat - '0'.toNat))
    rw [Nat.ofDigitChars_cons]
    omega

/-- Digits are taken as long as the number that they make fits. -/
theorem takeDigits_map {start : Nat} {cs : List Char}
    (h : Nat.ofDigitChars 10 cs start < Nat.pow 2 64) :
    takeDigits start (cs.map fun c => c.toNat - '0'.toNat) =
      (Nat.ofDigitChars 10 cs start, []) := by
  induction cs generalizing start with
  | nil => rfl
  | cons c cs ih =>
    rw [Nat.ofDigitChars_cons, Nat.mul_comm] at h ⊢
    have hle := le_ofDigitChars cs (start * 10 + (c.toNat - '0'.toNat))
    rw [List.map_cons, takeDigits, if_pos (by omega), ih h]

theorem roundToDouble_of_lt {n : Nat} (h : n < Nat.pow 2 53) : roundToDouble n = n := by
  have hlog : n.log2 + 1 - 53 = 0 := by
    by_cases hzero : n = 0
    · subst hzero
      decide
    · have hlt := (Nat.log2_lt hzero).2 h
      omega
  simp [roundToDouble, hlog, Nat.mod_one]

theorem overflows_ofNat {n : Nat} (h : n < Nat.pow 2 53) : (ofNat n).overflows = false := by
  have hfits : Nat.ofDigitChars 10 (Nat.toDigits 10 n) 0 < Nat.pow 2 64 := by
    rw [Nat.ofDigitChars_ten_toDigits]
    exact Nat.lt_trans h (by decide)
  -- no digit is left over, so there is no exponent to scale with
  have hscientific : (ofNat n).scientific = (n, 0) := by
    simp only [scientific, ofNat, takeDigits_map hfits, Nat.ofDigitChars_ten_toDigits]
    rfl
  have hlarge : Nat.pow 2 53 ≤ Nat.pow 2 1024 - Nat.pow 2 970 := by decide +kernel
  have hone : roundToDouble (Nat.pow 10 (0 : Int).toNat) = 1 := by decide
  simp only [overflows, hscientific]
  rw [if_neg (by decide), if_neg (by decide), roundToDouble_of_lt h, hone, Nat.mul_one,
    decide_eq_false_iff_not, Nat.not_le]
  exact Nat.lt_of_lt_of_le h hlarge

end Number

/-! ## Strings -/

/-- The letter that stands for a character after a backslash. -/
def escapeLetter? : Char → Option Char
  | '\x22' => some '\x22'
  | '\\' => some '\\'
  | '\x08' => some 'b'
  | '\x0c' => some 'f'
  | '\n' => some 'n'
  | '\r' => some 'r'
  | '\t' => some 't'
  | _ => none

/-- A character inside a string. Control characters without a letter are given by their code. -/
def writeChar (c : Char) : List Char :=
  match escapeLetter? c with
  | some letter => ['\\', letter]
  | none =>
    if c < ' ' then ['\\', 'u', '0', '0', (c.toNat / 16).digitChar, (c.toNat % 16).digitChar]
    else [c]

/-- A string literal. -/
def writeString (s : String) : List Char :=
  '\x22' :: s.toList.flatMap writeChar ++ ['\x22']

theorem escaped?_escapeLetter? {c letter : Char} (h : escapeLetter? c = some letter) :
    letter ≠ 'u' ∧ Scan.escaped? letter = some c := by
  unfold escapeLetter? at h
  split at h <;> cases h <;> decide

theorem hexDigit?_digitChar : ∀ d < 16, Text.hexDigit? d.digitChar = some d := by
  decide

theorem textOf?_map_toNat (cs : List Char) : Scan.textOf? (cs.map Char.toNat) = some cs := by
  induction cs with
  | nil => rfl
  | cons c cs ih =>
    -- no character is a surrogate
    have hvalid : c.toNat < 0xd800 ∨ 0xdfff < c.toNat ∧ c.toNat < 0x110000 := c.valid
    have hhigh : (0xd800 ≤ c.toNat && c.toNat < 0xdc00) = false := by
      simp
      omega
    have hlow : (0xdc00 ≤ c.toNat && c.toNat < 0xe000) = false := by
      simp
      omega
    rw [List.map_cons, Scan.textOf?.eq_def]
    simp [hhigh, hlow, ih]

theorem step_of_silent {scan next : Scan} {c : Char} (h : scan.step c = some ([], next))
    (n : Nesting) : Reading.step ⟨scan, n⟩ c = some ⟨next, n⟩ := by
  simp [Reading.step, h]

theorem run_writeChar (c : Char) (units : List Nat) (n : Nesting) :
    (writeChar c).foldlM Reading.step ⟨.string units, n⟩ =
      some ⟨.string (c.toNat :: units), n⟩ := by
  unfold writeChar
  split
  next letter hletter =>
    -- `u` is no such letter: it would start a code
    obtain ⟨hu, hescaped⟩ := escaped?_escapeLetter? hletter
    simp [Reading.step, Scan.step, hu, hescaped]
  next hletter =>
    split
    next hcontrol =>
      have hsmall : c.toNat < 32 := hcontrol
      have hhigh := hexDigit?_digitChar (c.toNat / 16) (by omega)
      have hlow := hexDigit?_digitChar (c.toNat % 16) (by omega)
      have hzero : Text.hexDigit? '0' = some 0 := by decide
      have hvalue : c.toNat / 16 * 16 + c.toNat % 16 = c.toNat := Nat.div_add_mod' _ _
      simp [Reading.step, Scan.step, hzero, hhigh, hlow, hvalue]
    next hcontrol =>
      have hquote : c ≠ '\x22' := by
        rintro rfl
        cases hletter
      have hbackslash : c ≠ '\\' := by
        rintro rfl
        cases hletter
      simp [Reading.step, Scan.step, hquote, hbackslash, hcontrol]

theorem run_chars (cs : List Char) (units : List Nat) (n : Nesting) :
    (cs.flatMap writeChar).foldlM Reading.step ⟨.string units, n⟩ =
      some ⟨.string ((cs.map Char.toNat).reverse ++ units), n⟩ := by
  induction cs generalizing units with
  | nil => rfl
  | cons c cs ih =>
    rw [List.flatMap_cons, List.foldlM_append, run_writeChar, Option.bind_eq_bind,
      Option.bind_some, ih]
    simp

theorem run_writeString (s : String) {n next : Nesting} (h : n.step (.text (some s)) = some next) :
    (writeString s).foldlM Reading.step ⟨.between, n⟩ = some ⟨.between, next⟩ := by
  have hopen : Reading.step ⟨.between, n⟩ '\x22' = some ⟨.string [], n⟩ := rfl
  rw [writeString, List.cons_append, List.foldlM_cons, hopen, Option.bind_eq_bind,
    Option.bind_some, List.foldlM_append, run_chars]
  simp [Reading.step, Scan.step, textOf?_map_toNat, h]

/-! ## Values -/

mutual

/-- The characters of a value; none for what has no meaning. -/
def write : Json → List Char
  | .null => ['n', 'u', 'l', 'l']
  | .bool true => ['t', 'r', 'u', 'e']
  | .bool false => ['f', 'a', 'l', 's', 'e']
  | .number n => n.write
  | .string s => writeString s
  | .array items => '[' :: List.intercalate [','] (writeItems items) ++ [']']
  | .object members => '\x7b' :: List.intercalate [','] (writeMembers members) ++ ['\x7d']
  | .meaningless => []

/-- The characters of each item. -/
def writeItems : List Json → List (List Char)
  | [] => []
  | item :: items => write item :: writeItems items

/-- The characters of each member. -/
def writeMembers : List (String × Json) → List (List Char)
  | [] => []
  | (name, value) :: members => (writeString name ++ ':' :: write value) :: writeMembers members

end

/-- The text of a value. -/
def text (j : Json) : String :=
  String.ofList j.write

/-- The values that a text can have: number literals have digits and do not overflow, and nothing is
without a meaning. -/
inductive HasText : Json → Prop
  | null : HasText .null
  | bool (b : Bool) : HasText (.bool b)
  | number {n : Number} (digits : ∀ d ∈ n.fraction, d < 10) (fits : n.overflows = false) :
      HasText (.number n)
  | string (s : String) : HasText (.string s)
  | array {items : List Json} (each : ∀ item ∈ items, HasText item) : HasText (.array items)
  | object {members : List (String × Json)} (values : ∀ m ∈ members, HasText m.2) :
      HasText (.object members)

/-- The reader has come to the end of a value: what may follow is read as if the value had been
completed. -/
structure Settles (r : Reading) (n : Nesting) : Prop where
  step : ∀ c ∈ [',', ']', '\x7d'], r.step c = Reading.step ⟨.between, n⟩ c
  finish : r.finish = Reading.finish ⟨.between, n⟩

/-- The scanner holds a token that what may follow completes. -/
structure Holds (scan : Scan) (token : Token) : Prop where
  step : ∀ c ∈ [',', ']', '\x7d'],
    scan.step c = (Scan.start c).map fun next => (token :: next.1, next.2)
  finish : scan.finish = some [token]

theorem Holds.settles {scan : Scan} {token : Token} (h : Holds scan token) {n next : Nesting}
    (hstep : n.step token = some next) : Settles ⟨scan, n⟩ next := by
  constructor
  · intro c hc
    have hbetween : Scan.step c .between = Scan.start c := rfl
    simp only [Reading.step, h.step c hc, hbetween]
    cases Scan.start c with
    | none => rfl
    | some started => simp [hstep]
  · have hbetween : Scan.finish .between = some [] := rfl
    simp [Reading.finish, h.finish, hbetween, hstep]

theorem holds_word {letters : List Char} {token : Token}
    (h : Scan.wordToken? letters = some token) : Holds (.word letters) token := by
  constructor
  · intro c hc
    have hlower : c.isLower = false := by
      simp only [List.mem_cons, List.not_mem_nil, or_false] at hc
      rcases hc with rfl | rfl | rfl <;> decide
    rw [Scan.step, hlower, h]
    cases Scan.start c <;> rfl
  · rw [Scan.finish, h, Option.map_some]

theorem holds_number {literal : List Char} {token : Token}
    (h : Scan.numberToken? literal = some token) : Holds (.number literal) token := by
  constructor
  · intro c hc
    have hother : Scan.isNumberChar c = false := by
      simp only [List.mem_cons, List.not_mem_nil, or_false] at hc
      rcases hc with rfl | rfl | rfl <;> decide
    rw [Scan.step, hother, h]
    cases Scan.start c <;> rfl
  · rw [Scan.finish, h, Option.map_some]

/-- The text is read from a nesting to the end of a value. -/
def Completes (cs : List Char) (before after : Nesting) : Prop :=
  ∃ r, cs.foldlM Reading.step ⟨.between, before⟩ = some r ∧ Settles r after

theorem completes_nil (n : Nesting) : Completes [] n n :=
  ⟨_, rfl, fun _ _ => rfl, rfl⟩

theorem Completes.token {c : Char} {token : Token} {cs : List Char} {n next after : Nesting}
    (hstart : Scan.start c = some ([token], .between)) (hstep : n.step token = some next)
    (h : Completes cs next after) : Completes (c :: cs) n after := by
  obtain ⟨r, hrun, hsettles⟩ := h
  refine ⟨r, ?_, hsettles⟩
  have hread : Reading.step ⟨.between, n⟩ c = some ⟨.between, next⟩ := by
    simp [Reading.step, Scan.step, hstart, hstep]
  rw [List.foldlM_cons, hread]
  exact hrun

theorem Completes.append {cs ds : List Char} {c : Char} {n next after : Nesting}
    (h : Completes cs n next) (hc : c ∈ [',', ']', '\x7d'])
    (hnext : Completes (c :: ds) next after) : Completes (cs ++ c :: ds) n after := by
  obtain ⟨r, hrun, hsettles⟩ := h
  obtain ⟨r', hrun', hsettles'⟩ := hnext
  refine ⟨r', ?_, hsettles'⟩
  rw [List.foldlM_append, hrun, Option.bind_eq_bind, Option.bind_some, List.foldlM_cons,
    hsettles.step c hc, ← List.foldlM_cons]
  exact hrun'

/-- A value may stand here. -/
def Nesting.TakesValue (n : Nesting) : Prop :=
  ∀ token, token ≠ .endArray → n.step token = Nesting.value n.frames token

theorem takesValue_item (frames : List Frame) : Nesting.TakesValue ⟨frames, .item⟩ :=
  fun _ _ => rfl

theorem takesValue_firstItem (frames : List Frame) : Nesting.TakesValue ⟨frames, .firstItem⟩ := by
  intro token h
  cases token <;> first | rfl | exact absurd rfl h

/-- A text that is read as a value wherever one may stand. -/
def Denotes (cs : List Char) (j : Json) : Prop :=
  ∀ n : Nesting, n.TakesValue → Completes cs n (Nesting.complete j n.frames)

theorem denotes_literal {cs : List Char} {scan : Scan} {j : Json}
    (hrun : ∀ n, cs.foldlM Reading.step ⟨.between, n⟩ = some ⟨scan, n⟩)
    (h : Holds scan (.literal j)) : Denotes cs j :=
  fun n hn => ⟨_, hrun n, h.settles (hn _ nofun)⟩

theorem denotes_writeString (s : String) : Denotes (writeString s) (.string s) := by
  intro n hn
  exact ⟨_, run_writeString s (hn _ nofun), fun _ _ => rfl, rfl⟩

theorem run_numberChars {cs : List Char} (h : ∀ c ∈ cs, Scan.isNumberChar c = true)
    (literal : List Char) (n : Nesting) :
    cs.foldlM Reading.step ⟨.number literal, n⟩ = some ⟨.number (cs.reverse ++ literal), n⟩ := by
  induction cs generalizing literal with
  | nil => rfl
  | cons c cs ih =>
    rw [List.forall_mem_cons] at h
    have hstep : Scan.step c (.number literal) = some ([], .number (c :: literal)) := if_pos h.1
    rw [List.foldlM_cons, step_of_silent hstep, Option.bind_eq_bind, Option.bind_some, ih h.2]
    simp

theorem run_number {c : Char} {cs : List Char} (hc : c.isDigit = true ∨ c = '-')
    (hcs : ∀ c ∈ cs, Scan.isNumberChar c = true) (n : Nesting) :
    (c :: cs).foldlM Reading.step ⟨.between, n⟩ = some ⟨.number (c :: cs).reverse, n⟩ := by
  have hstart : Scan.step c .between = some ([], .number [c]) := by
    show Scan.start c = _
    unfold Scan.start
    split <;> simp_all
  rw [List.foldlM_cons, step_of_silent hstart, Option.bind_eq_bind, Option.bind_some,
    run_numberChars hcs, List.reverse_cons]

theorem denotes_number {n : Number} (digits : ∀ d ∈ n.fraction, d < 10)
    (fits : n.overflows = false) : Denotes n.write (.number n) := by
  have htoken : Scan.numberToken? n.write.reverse = some (.literal (.number n)) := by
    simp [Scan.numberToken?, Number.ofChars?_write n digits, fits]
  obtain ⟨c, cs, hwrite, hc, hcs⟩ := Number.write_eq_cons digits
  rw [hwrite] at htoken ⊢
  exact denotes_literal (run_number hc hcs) (holds_number htoken)

theorem writeItems_eq_map (items : List Json) : writeItems items = items.map write := by
  induction items with
  | nil => rfl
  | cons item items ih => rw [writeItems, ih, List.map_cons]

theorem writeMembers_eq_map (members : List (String × Json)) :
    writeMembers members = members.map fun m => writeString m.1 ++ ':' :: write m.2 := by
  induction members with
  | nil => rfl
  | cons m members ih => rw [writeMembers, ih, List.map_cons]

/-- The induction is on the items still to read; `before` are those read so far, the last one
first. -/
theorem completes_items {items : List Json} (each : ∀ item ∈ items, Denotes item.write item)
    (hne : items ≠ []) {n : Nesting} (hn : n.TakesValue) {before : List Json} {frames : List Frame}
    (hframes : n.frames = .array before :: frames) :
    Completes (List.intercalate [','] (items.map write)) n
      ⟨.array (items.reverse ++ before) :: frames, .separator⟩ := by
  induction items generalizing n before with
  | nil => exact absurd rfl hne
  | cons item items ih =>
    rw [List.forall_mem_cons] at each
    have hitem := each.1 n hn
    rw [hframes, Nesting.complete] at hitem
    by_cases hlast : items = []
    · simpa [hlast] using hitem
    · rw [List.map_cons, List.intercalate_cons_of_ne_nil (by simpa using hlast), List.append_assoc]
      apply hitem.append (by simp)
      apply Completes.token rfl rfl
      simpa using ih each.2 hlast (takesValue_item _) rfl

theorem denotes_array {items : List Json} (each : ∀ item ∈ items, Denotes item.write item) :
    Denotes (write (.array items)) (.array items) := by
  intro n hn
  rw [write, writeItems_eq_map, List.cons_append]
  apply Completes.token rfl (hn .beginArray nofun)
  by_cases hempty : items = []
  · subst hempty
    exact .token rfl rfl (completes_nil _)
  · apply (completes_items each hempty (takesValue_firstItem _) rfl).append (by simp)
    apply Completes.token rfl _ (completes_nil _)
    simp [Nesting.step, Nesting.close]

/-- A member name may stand here. -/
def Nesting.TakesName (n : Nesting) (members : List (Option String × Json)) (frames : List Frame) :
    Prop :=
  ∀ name, n.step (.text name) = some ⟨.object members name :: frames, .colon⟩

theorem takesName_name (members : List (Option String × Json)) (name : Option String)
    (frames : List Frame) :
    Nesting.TakesName ⟨.object members name :: frames, .name⟩ members frames :=
  fun _ => rfl

theorem takesName_firstName (frames : List Frame) :
    Nesting.TakesName ⟨.object [] none :: frames, .firstName⟩ [] frames :=
  fun _ => rfl

theorem completes_member (name : String) {j : Json} (h : Denotes j.write j) {n : Nesting}
    {members : List (Option String × Json)} {frames : List Frame}
    (hn : n.TakesName members frames) :
    Completes (writeString name ++ ':' :: write j) n
      ⟨.object ((some name, j) :: members) (some name) :: frames, .separator⟩ := by
  obtain ⟨r, hrun, hsettles⟩ := h ⟨.object members (some name) :: frames, .item⟩ (takesValue_item _)
  refine ⟨r, ?_, hsettles⟩
  rw [List.foldlM_append, run_writeString name (hn _), Option.bind_eq_bind, Option.bind_some,
    List.foldlM_cons]
  exact hrun

theorem completes_members {members : List (String × Json)}
    (values : ∀ m ∈ members, Denotes m.2.write m.2) (hne : members ≠ []) {n : Nesting}
    {before : List (Option String × Json)} {frames : List Frame} (hn : n.TakesName before frames) :
    ∃ name, Completes
      (List.intercalate [','] (members.map fun m => writeString m.1 ++ ':' :: write m.2)) n
      ⟨.object ((members.map fun m => (some m.1, m.2)).reverse ++ before) name :: frames,
        .separator⟩ := by
  induction members generalizing n before with
  | nil => exact absurd rfl hne
  | cons m members ih =>
    rw [List.forall_mem_cons] at values
    have hmember := completes_member m.1 values.1 hn
    by_cases hlast : members = []
    · exact ⟨some m.1, by simpa [hlast] using hmember⟩
    · obtain ⟨name, hrest⟩ := ih values.2 hlast (takesName_name _ (some m.1) frames)
      refine ⟨name, ?_⟩
      rw [List.map_cons, List.intercalate_cons_of_ne_nil (by simpa using hlast), List.append_assoc]
      apply hmember.append (by simp)
      apply Completes.token rfl rfl
      simpa using hrest

theorem objectOf_map (members : List (String × Json)) :
    Nesting.objectOf (members.map fun m => (some m.1, m.2)) = .object members := by
  rw [Nesting.objectOf, mapM_map_eq_some]
  exact fun _ _ => rfl

theorem denotes_object {members : List (String × Json)}
    (values : ∀ m ∈ members, Denotes m.2.write m.2) :
    Denotes (write (.object members)) (.object members) := by
  intro n hn
  rw [write, writeMembers_eq_map, List.cons_append]
  apply Completes.token rfl (hn .beginObject nofun)
  by_cases hempty : members = []
  · subst hempty
    exact .token rfl rfl (completes_nil _)
  · obtain ⟨name, hmembers⟩ := completes_members values hempty (takesName_firstName n.frames)
    apply hmembers.append (by simp)
    apply Completes.token rfl _ (completes_nil _)
    simp [Nesting.step, Nesting.close, objectOf_map]

theorem HasText.denotes {j : Json} (h : HasText j) : Denotes j.write j := by
  induction h with
  | null => exact denotes_literal (fun _ => rfl) (holds_word rfl)
  | bool b => cases b <;> exact denotes_literal (fun _ => rfl) (holds_word rfl)
  | number digits fits => exact denotes_number digits fits
  | string s => exact denotes_writeString s
  | array _ ih => exact denotes_array ih
  | object _ ih => exact denotes_object ih

theorem ofText?_text {j : Json} (h : HasText j) : ofText? j.text = some j := by
  obtain ⟨r, hrun, hsettles⟩ := h.denotes {} (takesValue_item [])
  rw [ofText?, text, String.toList_ofList, hrun, Option.bind_eq_bind, Option.bind_some,
    hsettles.finish]
  rfl

end HttpStubs.Json

/-!
# JSON numbers

A number literal by its parts, and whether a double can hold it. The digits are taken into a
significand below `2 ^ 64`; the digits that do not fit only move the decimal exponent. The literal
overflows if the significand and the power of ten, each rounded to a double, have a product beyond
the doubles.
-/

namespace HttpStubs.Json

/-- A number literal by its parts. -/
structure Number where
  negative : Bool := false
  whole : Nat
  /-- The digits after the point; none if there is no point. -/
  fraction : List Nat := []
  exponent : Option Int := none
  deriving DecidableEq, Repr

namespace Number

/-- The literal of a natural number. -/
def ofNat (n : Nat) : Number :=
  { whole := n }

/-- The value of a literal without sign, point and exponent. -/
def toNat? (n : Number) : Option Nat :=
  if n.negative || !n.fraction.isEmpty || n.exponent.isSome then none else some n.whole

/-- Appends digits to a significand while it stays below `2 ^ 64`; the rest of the digits is left
over. -/
def takeDigits (significand : Nat) : List Nat → Nat × List Nat
  | [] => (significand, [])
  | d :: ds =>
    if significand * 10 + d < Nat.pow 2 64 then takeDigits (significand * 10 + d) ds
    else (significand, d :: ds)

/-- The significand and the decimal exponent of a literal. -/
def scientific (n : Number) : Nat × Int :=
  let digits := (Nat.toDigits 10 n.whole).map fun c => c.toNat - '0'.toNat
  let (front, wholeRest) := takeDigits 0 digits
  let (significand, fractionRest) := takeDigits front n.fraction
  let shift : Int := wholeRest.length - (n.fraction.length - fractionRest.length : Nat)
  (significand, shift + n.exponent.getD 0)

/-- The nearest number with at most 53 binary digits; of two that are as near, the even one. -/
def roundToDouble (n : Nat) : Nat :=
  let unit := Nat.pow 2 (n.log2 + 1 - 53)
  let quotient := n / unit
  let twiceRest := 2 * (n % unit)
  if unit < twiceRest || (unit == twiceRest && quotient % 2 == 1) then (quotient + 1) * unit
  else quotient * unit

/-- Whether a literal is too large for a double. -/
def overflows (n : Number) : Bool :=
  let (significand, exponent) := n.scientific
  if exponent < 0 then false
  else if 308 < exponent then significand != 0
  else
    Nat.pow 2 1024 - Nat.pow 2 970 ≤
      roundToDouble significand * roundToDouble (Nat.pow 10 exponent.toNat)

/-- The parts of a literal after its whole digits: a point with digits, an exponent, or both. -/
def ofTail (negative : Bool) (whole : Nat) : List Char → Option Number
  | '.' :: cs =>
    match cs.takeWhile Char.isDigit, cs.dropWhile Char.isDigit with
    | [], _ => none
    | ds, rest => do
      let exponent ← exponent? rest
      return ⟨negative, whole, ds.map fun c => c.toNat - '0'.toNat, exponent⟩
  | cs => do
    let exponent ← exponent? cs
    return ⟨negative, whole, [], exponent⟩
where
  /-- The exponent that ends a literal, if there is one. -/
  exponent? : List Char → Option (Option Int)
    | [] => some none
    | e :: cs =>
      if e = 'e' || e = 'E' then
        match cs with
        | '+' :: ds => (digits? ds).map fun n => some (n : Int)
        | '-' :: ds => (digits? ds).map fun n => some (-(n : Int))
        | ds => (digits? ds).map fun n => some (n : Int)
      else none
  /-- The value of a list of digits that is not empty. -/
  digits? (ds : List Char) : Option Nat :=
    if ds.isEmpty || !ds.all Char.isDigit then none else some (Nat.ofDigitChars 10 ds 0)

/-- Reads a number literal. The whole digits have no leading zero. -/
def ofChars? (cs : List Char) : Option Number :=
  let (negative, cs) := match cs with
    | '-' :: cs => (true, cs)
    | cs => (false, cs)
  match cs.takeWhile Char.isDigit, cs.dropWhile Char.isDigit with
  | [], _ => none
  | '0' :: _ :: _, _ => none
  | ds, rest => ofTail negative (Nat.ofDigitChars 10 ds 0) rest

end Number

end HttpStubs.Json

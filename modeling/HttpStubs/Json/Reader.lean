import HttpStubs.Json.Value
import HttpStubs.Text.Hex

/-!
# Reading JSON text

The text is read character by character. The scanner cuts it into tokens; the tokens drive a stack
of open arrays and objects. Both are step functions, so reading is one pass over the text.

Only space, tab, line feed and carriage return are blank, and nothing may follow the value.
-/

namespace HttpStubs.Json

/-! ## Tokens -/

/-- A token of JSON text. -/
inductive Token where
  | beginArray
  | endArray
  | beginObject
  | endObject
  | comma
  | colon
  /-- A string; none if a surrogate in it is unpaired. -/
  | text (text : Option String)
  /-- Any other literal. -/
  | literal (value : Json)

/-- What the scanner is in the middle of. Characters read are kept last first. -/
inductive Scan where
  | between
  | word (letters : List Char)
  | number (literal : List Char)
  /-- Inside a string, by the code points and surrogates that it holds so far. -/
  | string (units : List Nat)
  /-- After a backslash in a string. -/
  | escape (units : List Nat)
  /-- After `\u` in a string, with the number of digits to come and the value so far. -/
  | hex (units : List Nat) (missing : Nat) (value : Nat)

namespace Scan

/-- The text of code points and paired surrogates. -/
def textOf? : List Nat → Option (List Char)
  | [] => some []
  | n :: ns =>
    if 0xd800 ≤ n && n < 0xdc00 then
      match ns with
      | m :: ms =>
        if 0xdc00 ≤ m && m < 0xe000 then
          (textOf? ms).map (Char.ofNat (0x10000 + (n - 0xd800) * 0x400 + (m - 0xdc00)) :: ·)
        else none
      | [] => none
    else if 0xdc00 ≤ n && n < 0xe000 then none
    else (textOf? ns).map (Char.ofNat n :: ·)

/-- The characters that a number literal is made of. -/
def isNumberChar (c : Char) : Bool :=
  c.isDigit || c == '-' || c == '+' || c == '.' || c == 'e' || c == 'E'

/-- The character that a one-letter escape stands for. -/
def escaped? : Char → Option Char
  | '\x22' => some '\x22'
  | '\\' => some '\\'
  | '/' => some '/'
  | 'b' => some '\x08'
  | 'f' => some '\x0c'
  | 'n' => some '\n'
  | 'r' => some '\r'
  | 't' => some '\t'
  | _ => none

/-- The literal of a word. -/
def wordToken? (letters : List Char) : Option Token :=
  match letters.reverse with
  | ['n', 'u', 'l', 'l'] => some (.literal .null)
  | ['t', 'r', 'u', 'e'] => some (.literal (.bool true))
  | ['f', 'a', 'l', 's', 'e'] => some (.literal (.bool false))
  | _ => none

/-- The literal of a number. -/
def numberToken? (literal : List Char) : Option Token :=
  (Number.ofChars? literal.reverse).map fun n =>
    .literal (if n.overflows then .meaningless else .number n)

/-- Starts on a character that belongs to no token begun before. -/
def start (c : Char) : Option (List Token × Scan) :=
  match c with
  | ' ' | '\t' | '\n' | '\r' => some ([], .between)
  | '[' => some ([.beginArray], .between)
  | ']' => some ([.endArray], .between)
  | '\x7b' => some ([.beginObject], .between)
  | '\x7d' => some ([.endObject], .between)
  | ',' => some ([.comma], .between)
  | ':' => some ([.colon], .between)
  | '\x22' => some ([], .string [])
  | c =>
    if c.isDigit || c == '-' then some ([], .number [c])
    else if c.isLower then some ([], .word [c])
    else none

/-- Reads one character: the tokens that it completes and what follows; none on a character that
cannot stand here. -/
def step (c : Char) : Scan → Option (List Token × Scan)
  | .between => start c
  | .word letters =>
    if c.isLower then some ([], .word (c :: letters))
    else do
      let token ← wordToken? letters
      let (tokens, next) ← start c
      return (token :: tokens, next)
  | .number literal =>
    if isNumberChar c then some ([], .number (c :: literal))
    else do
      let token ← numberToken? literal
      let (tokens, next) ← start c
      return (token :: tokens, next)
  | .string units =>
    if c = '\x22' then some ([.text ((textOf? units.reverse).map String.ofList)], .between)
    else if c = '\\' then some ([], .escape units)
    else if c < ' ' then none
    else some ([], .string (c.toNat :: units))
  | .escape units =>
    if c = 'u' then some ([], .hex units 4 0)
    else (escaped? c).map fun c => ([], .string (c.toNat :: units))
  | .hex units missing value =>
    (Text.hexDigit? c).map fun d =>
      if missing ≤ 1 then ([], .string ((value * 16 + d) :: units))
      else ([], .hex units (missing - 1) (value * 16 + d))

/-- The tokens that the end of the text completes. -/
def finish : Scan → Option (List Token)
  | .between => some []
  | .word letters => (wordToken? letters).map ([·])
  | .number literal => (numberToken? literal).map ([·])
  | .string _ | .escape _ | .hex _ _ _ => none

end Scan

/-! ## Open arrays and objects -/

/-- An array or object that is not closed yet, its contents last first. -/
inductive Frame where
  | array (items : List Json)
  /-- An object, with the name of the member being read. -/
  | object (members : List (Option String × Json)) (name : Option String)

/-- What may come next. -/
inductive Expected where
  | item
  /-- An item, or the end of an array that is empty. -/
  | firstItem
  | name
  /-- A member name, or the end of an object that is empty. -/
  | firstName
  | colon
  /-- A comma, or the end of the innermost array or object. -/
  | separator
  /-- Nothing: the value is complete. -/
  | nothing (value : Json)

/-- The state of the reader between two tokens. -/
structure Nesting where
  frames : List Frame := []
  expected : Expected := .item

namespace Nesting

/-- The object of members some of whose names may have no meaning. -/
def objectOf (members : List (Option String × Json)) : Json :=
  match members.mapM fun (name, value) => name.map (·, value) with
  | some members => .object members
  | none => .meaningless

/-- Puts a complete value into the innermost array or object. -/
def complete (value : Json) : List Frame → Nesting
  | [] => { expected := .nothing value }
  | .array items :: frames => ⟨.array (value :: items) :: frames, .separator⟩
  | .object members name :: frames =>
    ⟨.object ((name, value) :: members) name :: frames, .separator⟩

/-- Reads a token where a value may stand. -/
def value (frames : List Frame) : Token → Option Nesting
  | .literal v => some (complete v frames)
  | .text (some s) => some (complete (.string s) frames)
  | .text none => some (complete .meaningless frames)
  | .beginArray => some ⟨.array [] :: frames, .firstItem⟩
  | .beginObject => some ⟨.object [] none :: frames, .firstName⟩
  | _ => none

/-- Closes the innermost array or object. -/
def close : List Frame → Token → Option Nesting
  | .array items :: frames, .endArray => some (complete (.array items.reverse) frames)
  | .object members _ :: frames, .endObject => some (complete (objectOf members.reverse) frames)
  | _, _ => none

/-- Reads one token; none if it cannot stand here. -/
def step (n : Nesting) (token : Token) : Option Nesting :=
  match n.expected, n.frames, token with
  | .item, frames, token => value frames token
  | .firstItem, frames, .endArray => close frames .endArray
  | .firstItem, frames, token => value frames token
  | .firstName, frames, .endObject => close frames .endObject
  | .firstName, .object members _ :: frames, .text name =>
    some ⟨.object members name :: frames, .colon⟩
  | .name, .object members _ :: frames, .text name => some ⟨.object members name :: frames, .colon⟩
  | .colon, frames, .colon => some ⟨frames, .item⟩
  | .separator, .array items :: frames, .comma => some ⟨.array items :: frames, .item⟩
  | .separator, .object members name :: frames, .comma =>
    some ⟨.object members name :: frames, .name⟩
  | .separator, frames, token => close frames token
  | _, _, _ => none

end Nesting

/-! ## Texts -/

/-- The state of the reader between two characters. -/
structure Reading where
  scan : Scan := .between
  nesting : Nesting := {}

/-- Reads one character. -/
def Reading.step (r : Reading) (c : Char) : Option Reading := do
  let (tokens, scan) ← r.scan.step c
  return ⟨scan, ← tokens.foldlM Nesting.step r.nesting⟩

/-- The value that the end of the text completes. -/
def Reading.finish (r : Reading) : Option Json := do
  let tokens ← r.scan.finish
  match (← tokens.foldlM Nesting.step r.nesting).expected with
  | .nothing value => some value
  | _ => none

/-- The value of a JSON text. -/
def ofText? (text : String) : Option Json := do
  (← text.toList.foldlM Reading.step {}).finish

end HttpStubs.Json

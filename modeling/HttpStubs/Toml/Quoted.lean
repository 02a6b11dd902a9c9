import HttpStubs.Text.Hex

/-!
# Quoted text in TOML

Basic strings, which know escapes, and literal strings, which do not; each on one line or, between
three quotes, on several. A reader takes the characters after the opening quotes and gives the text
and what follows the closing quotes.

A text of several lines loses a line end right after its opening quotes, has every other line end as
a line feed, and may end in one or two quotes before the closing ones.
-/

namespace HttpStubs.Toml

/-- The characters that may stand in a comment or a quoted text. -/
def isTextChar (c : Char) : Bool :=
  c == '\t' || (0x20 ≤ c.toNat && c != '\x7f')

/-- The character that a one-letter escape stands for. -/
def escaped? : Char → Option Char
  | 'b' => some '\x08'
  | 't' => some '\t'
  | 'n' => some '\n'
  | 'f' => some '\x0c'
  | 'r' => some '\r'
  | '\x22' => some '\x22'
  | '\\' => some '\\'
  | _ => none

/-- The character of a code point; none for a surrogate or a number too large. -/
def charOf? (n : Nat) : Option Char :=
  if n.isValidChar then some (Char.ofNat n) else none

/-- What the reader of a basic string is in the middle of. -/
inductive BasicState where
  | plain
  /-- After a backslash. -/
  | escape
  /-- In a numeric escape, with the number of digits to come and the value so far. -/
  | unicode (missing : Nat) (value : Nat)
  /-- After a backslash and blanks, where a line end must follow. -/
  | beforeFold
  /-- After a backslash at the end of a line: blanks and line ends are left out. -/
  | fold

/-- Whether a character is left out after a backslash at the end of a line; `next` is the one after
it. -/
def isFolded (c : Char) (next : Option Char) : Bool :=
  c == ' ' || c == '\t' || c == '\n' || (c == '\r' && next == some '\n')

/-- The state in which a character is read: the first that is not left out ends the fold. -/
def BasicState.before (c : Char) (next : Option Char) : BasicState → BasicState
  | .fold => if isFolded c next then .fold else .plain
  | state => state

/-- The end of a string of several lines, at its first closing quote: the quotes that belong to the
text, and what follows; none if the quote does not begin the end. -/
def closing? (quote : Char) (cs : List Char) : Option (List Char × List Char) :=
  let run := cs.takeWhile (· == quote)
  if run.length < 2 then none
  else if run.length < 4 then some (run.drop 2, cs.drop run.length)
  else some ([quote, quote], cs.drop 4)

/-- Reads a basic string; `text` holds what has been read, last character first. -/
def basicFrom (multi : Bool) (state : BasicState) (text : List Char) :
    List Char → Option (String × List Char)
  | [] => none
  | c :: cs =>
    match state.before c cs.head? with
    | .fold => basicFrom multi .fold text cs
    | .beforeFold =>
      if c = '\n' then basicFrom multi .fold text cs
      else if isFolded c cs.head? then basicFrom multi .beforeFold text cs
      else none
    | .escape =>
      if c = 'u' then basicFrom multi (.unicode 4 0) text cs
      else if c = 'U' then basicFrom multi (.unicode 8 0) text cs
      else if multi && c == '\n' then basicFrom multi .fold text cs
      else if multi && isFolded c cs.head? then basicFrom multi .beforeFold text cs
      else (escaped? c).bind fun c => basicFrom multi .plain (c :: text) cs
    | .unicode missing value =>
      (Text.hexDigit? c).bind fun d =>
        if 1 < missing then basicFrom multi (.unicode (missing - 1) (value * 16 + d)) text cs
        else (charOf? (value * 16 + d)).bind fun c => basicFrom multi .plain (c :: text) cs
    | .plain =>
      if c = '\x22' then
        if multi then
          match closing? '\x22' cs with
          | some (quotes, rest) => some (String.ofList (quotes ++ text).reverse, rest)
          | none => basicFrom multi .plain (c :: text) cs
        else some (String.ofList text.reverse, cs)
      else if c = '\\' then basicFrom multi .escape text cs
      else if isTextChar c then basicFrom multi .plain (c :: text) cs
      else if multi && c == '\n' then basicFrom multi .plain (c :: text) cs
      else if multi && c == '\r' && cs.head? == some '\n' then basicFrom multi .plain text cs
      else none

/-- Reads a literal string; `text` holds what has been read, last character first. -/
def literalFrom (multi : Bool) (text : List Char) : List Char → Option (String × List Char)
  | [] => none
  | c :: cs =>
    if c = '\x27' then
      if multi then
        match closing? '\x27' cs with
        | some (quotes, rest) => some (String.ofList (quotes ++ text).reverse, rest)
        | none => literalFrom multi (c :: text) cs
      else some (String.ofList text.reverse, cs)
    else if isTextChar c then literalFrom multi (c :: text) cs
    else if multi && c == '\n' then literalFrom multi (c :: text) cs
    else if multi && c == '\r' && cs.head? == some '\n' then literalFrom multi text cs
    else none

/-- The characters without a line end at their start. -/
def dropLineEnd : List Char → List Char
  | '\n' :: cs => cs
  | '\r' :: '\n' :: cs => cs
  | cs => cs

/-- Reads a quoted text on one line. -/
def lineText? : List Char → Option (String × List Char)
  | '\x22' :: cs => basicFrom false .plain [] cs
  | '\x27' :: cs => literalFrom false [] cs
  | _ => none

/-- Reads a quoted text on one line or several. -/
def text? : List Char → Option (String × List Char)
  | '\x22' :: '\x22' :: '\x22' :: cs => basicFrom true .plain [] (dropLineEnd cs)
  | '\x27' :: '\x27' :: '\x27' :: cs => literalFrom true [] (dropLineEnd cs)
  | cs => lineText? cs

end HttpStubs.Toml

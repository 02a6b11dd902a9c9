import HttpStubs.Toml.Quoted
import HttpStubs.Toml.Table

/-!
# Reading TOML text

Reads a text into the tree of tables that it defines. Numbers, dates, arrays with items and arrays
of tables are refused, since no option takes one.
-/

namespace HttpStubs.Toml

/-- The characters after blanks. -/
def skipBlanks (cs : List Char) : List Char :=
  cs.dropWhile fun c => c == ' ' || c == '\t'

/-- The characters after a line end. -/
def lineEnd? : List Char → Option (List Char)
  | '\n' :: cs => some cs
  | '\r' :: '\n' :: cs => some cs
  | _ => none

/-- The characters after a comment, if one starts here. -/
def skipComment : List Char → List Char
  | '#' :: cs => cs.dropWhile isTextChar
  | cs => cs

/-- The characters of the next line, if nothing but blanks and a comment is left on this one. -/
def nextLine? (cs : List Char) : Option (List Char) :=
  match skipComment (skipBlanks cs) with
  | [] => some []
  | cs => lineEnd? cs

/-- The characters that a key has without quotes. -/
def isKeyChar (c : Char) : Bool :=
  c.isAlphanum || c == '_' || c == '-'

/-- Reads one part of a key. -/
def keyPart? (cs : List Char) : Option (String × List Char) :=
  match cs.takeWhile isKeyChar with
  | [] => lineText? cs
  | part => some (String.ofList part, cs.dropWhile isKeyChar)

/-- Reads a key of at most `fuel` parts, with dots between them and blanks around. -/
def key? : Nat → List Char → Option (List String × List Char)
  | 0, _ => none
  | fuel + 1, cs => do
    let (part, cs) ← keyPart? (skipBlanks cs)
    match skipBlanks cs with
    | '.' :: cs =>
      let (parts, cs) ← key? fuel cs
      return (part :: parts, cs)
    | cs => return ([part], cs)

/-- Reads the rest of an array without items, which may go over several lines. -/
def emptyArray? : Nat → List Char → Option (List Char)
  | 0, _ => none
  | fuel + 1, cs =>
    match skipComment (skipBlanks cs) with
    | ']' :: cs => some cs
    | cs => (lineEnd? cs).bind (emptyArray? fuel)

mutual

/-- Reads a value that nests at most `fuel` levels deep. -/
def value? : Nat → List Char → Option (Value × List Char)
  | 0, _ => none
  | fuel + 1, cs =>
    match cs with
    | 't' :: 'r' :: 'u' :: 'e' :: cs => some (.boolean true, cs)
    | 'f' :: 'a' :: 'l' :: 's' :: 'e' :: cs => some (.boolean false, cs)
    | '[' :: cs => (emptyArray? (cs.length + 1) cs).map fun cs => (.emptyArray, cs)
    | '\x7b' :: cs =>
      match skipBlanks cs with
      | '\x7d' :: cs => some (.inline [], cs)
      | cs => (entries? fuel cs).map fun (entries, cs) => (.inline entries, cs)
    | cs => (text? cs).map fun (text, cs) => (.string text, cs)

/-- Reads the entries of a table in braces, and the closing brace. -/
def entries? : Nat → List Char → Option (List (String × Value) × List Char)
  | 0, _ => none
  | fuel + 1, cs => do
    let (key, cs) ← keyPart? (skipBlanks cs)
    match skipBlanks cs with
    | '=' :: cs =>
      let (value, cs) ← value? fuel (skipBlanks cs)
      match skipBlanks cs with
      | '\x7d' :: cs => return ([(key, value)], cs)
      | ',' :: cs =>
        let (entries, cs) ← entries? fuel cs
        if (entries.lookup key).isSome then none else return ((key, value) :: entries, cs)
      | _ => none
    | _ => none

end

/-- Reads at most `fuel` lines into a table; `header` is the last header. -/
def tableFrom? : Nat → List String → Table → List Char → Option Table
  | 0, _, _, _ => none
  | fuel + 1, header, table, cs =>
    match skipBlanks cs with
    | [] => some table
    | '[' :: cs => do
      let (key, cs) ← key? (cs.length + 1) cs
      match cs with
      | ']' :: cs => tableFrom? fuel key (← table.defineHeader? key) (← nextLine? cs)
      | _ => none
    | cs =>
      match nextLine? cs with
      | some cs => tableFrom? fuel header table cs
      | none => do
        let (key, cs) ← key? (cs.length + 1) cs
        match cs with
        | '=' :: cs =>
          let (value, cs) ← value? (cs.length + 1) (skipBlanks cs)
          tableFrom? fuel header (← table.defineIn? key value header) (← nextLine? cs)
        | _ => none

/-- The characters without a byte order mark at their start. -/
def dropMark : List Char → List Char
  | '\ufeff' :: cs => cs
  | cs => cs

/-- The table that a text defines. -/
def ofText? (text : String) : Option Table :=
  let cs := dropMark text.toList
  tableFrom? (cs.length + 1) [] [] cs

end HttpStubs.Toml

/-!
# TOML tables

The values that options are made of, and the tree of tables that the lines of a text define. A table
comes into being by a header, as the parent of one, or by a dotted key, and this decides which later
lines may add to it: no key is defined twice, no header names a table twice, and dotted keys and
headers do not mix.
-/

namespace HttpStubs.Toml

/-- A value. -/
inductive Value where
  | string (text : String)
  | boolean (value : Bool)
  | emptyArray
  /-- A table written in braces. -/
  | inline (entries : List (String × Value))
  deriving Repr

/-- How a table came into being. -/
inductive Origin where
  /-- As the parent of a table with a header. -/
  | implied
  | header
  | dotted
  deriving DecidableEq, Repr

/-- What a key stands for. -/
inductive Node where
  | value (value : Value)
  | table (origin : Origin) (entries : List (String × Node))
  deriving Repr

/-- A table: keys in the order of their definition. -/
abbrev Table := List (String × Node)

/-- Changes what a key stands for; `f` is given what it stood for and may refuse. -/
def Table.alter? (key : String) (f : Option Node → Option Node) : Table → Option Table
  | [] => (f none).map fun node => [(key, node)]
  | (k, node) :: entries =>
    if k = key then (f (some node)).map fun node => (k, node) :: entries
    else (alter? key f entries).map ((k, node) :: ·)

/-- Defines the table of a header. -/
def Table.defineHeader? (table : Table) : List String → Option Table
  | [] => none
  | [key] =>
    Table.alter? key (fun
      | none => some (.table .header [])
      | some (.table .implied entries) => some (.table .header entries)
      | some _ => none) table
  | key :: keys =>
    Table.alter? key (fun
      | none => (defineHeader? [] keys).map (.table .implied)
      | some (.table origin entries) => (defineHeader? entries keys).map (.table origin)
      | some (.value _) => none) table

/-- Defines the value of a key, dotted or not. -/
def Table.defineKey? (value : Value) (table : Table) : List String → Option Table
  | [] => none
  | [key] =>
    Table.alter? key (fun
      | none => some (.value value)
      | some _ => none) table
  | key :: keys =>
    Table.alter? key (fun
      | none => (defineKey? value [] keys).map (.table .dotted)
      | some (.table .dotted entries) => (defineKey? value entries keys).map (.table .dotted)
      | some (.table .implied entries) =>
        if keys.length = 1 then none else (defineKey? value entries keys).map (.table .implied)
      | some _ => none) table

/-- Defines the value of a key in the table of the last header. -/
def Table.defineIn? (key : List String) (value : Value) (table : Table) :
    List String → Option Table
  | [] => table.defineKey? value key
  | header :: headers =>
    Table.alter? header (fun
      | some (.table origin entries) =>
        (defineIn? key value entries headers).map (.table origin)
      | _ => none) table

end HttpStubs.Toml

import HttpStubs.Code.Literal

/-!
# Imports

Import declarations and their merging: one declaration for each module and kind of import, in the
order in which they first occur.
-/

namespace HttpStubs.Code

/-- An import declaration. -/
structure Import where
  /-- The name bound to the module's default export. -/
  default? : Option String := none
  items : List String := []
  source : String
  /-- Whether only types are imported. -/
  typeOnly : Bool := false
  deriving DecidableEq, Repr

namespace Import

/-- Whether two declarations import from the same module in the same way. -/
def sameKey (a b : Import) : Bool :=
  a.source == b.source && a.typeOnly == b.typeOnly

/-- Adds an item at the end unless it is there. -/
def addItem (items : List String) (item : String) : List String :=
  if items.contains item then items else items ++ [item]

/-- Takes over the items of another declaration, and its default if there is none yet. -/
def absorb (a b : Import) : Import :=
  { a with default? := a.default?.or b.default?, items := b.items.foldl addItem a.items }

/-- Merges a declaration into the first of its key, or puts it at the end. -/
def insert (b : Import) : List Import → List Import
  | [] => [b]
  | a :: rest => if a.sameKey b then a.absorb b :: rest else a :: insert b rest

/-- One declaration for each key, in the order of first occurrence. -/
def merge (imports : List Import) : List Import :=
  imports.foldl (fun merged i => i.insert merged) []

/-- The names that a declaration binds, as written. -/
def bindings (i : Import) : String :=
  ", ".intercalate (i.default?.toList ++ if i.items.isEmpty then [] else [braced i.items])

/-- How a declaration is written. -/
def text (i : Import) : String :=
  (if i.typeOnly then "import type " else "import ") ++ i.bindings ++ " from " ++
    literal i.source ++ ";"

end Import

end HttpStubs.Code

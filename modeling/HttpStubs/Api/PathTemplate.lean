import HttpStubs.Api.Scalar
import HttpStubs.Service.Definition

/-!
# Path templates

A path template is fixed text with placeholders, each a name in braces. `parse` cuts it into parts
and matches each placeholder with a path field: every placeholder needs a field of its name, and
every field a placeholder.
-/

namespace HttpStubs.Api

/-- A field carried as text, with its name on the wire. -/
structure Slot where
  field : Service.Field
  wire : String
  kind : Scalar
  deriving DecidableEq, Repr

/-- The name of the field. -/
def Slot.name (s : Slot) : String :=
  s.field.name

/-- A part of a path. -/
inductive PathPart where
  | text (text : String)
  | capture (slot : Slot)
  deriving DecidableEq, Repr

/-- What is wrong with a path template. -/
inductive PathFault where
  /-- A brace without its partner, or an empty placeholder. -/
  | malformed
  /-- A placeholder that is not an identifier. -/
  | invalid (placeholder : String)
  /-- A placeholder that no path field has. -/
  | unbound (placeholder : String)
  /-- A path field without a placeholder. -/
  | missing (field : String)
  deriving DecidableEq, Repr

namespace PathTemplate

/-- Whether a text matches `[A-Za-z_][A-Za-z0-9_]*`. -/
def isIdentifier : List Char → Bool
  | [] => false
  | c :: cs => (c.isAlpha || c == '_') && cs.all fun c => c.isAlphanum || c == '_'

/-- A piece of fixed text as a path part; none for the empty text. -/
def textPart (text : List Char) : List PathPart :=
  if text.isEmpty then [] else [.text (String.ofList text)]

/-- The path field that a placeholder stands for. -/
def capture (fields : List Slot) (name : List Char) : Except PathFault Slot :=
  if name.isEmpty then .error .malformed
  else if !isIdentifier name then .error (.invalid (String.ofList name))
  else
    match fields.find? (·.name == String.ofList name) with
    | some slot => .ok slot
    | none => .error (.unbound (String.ofList name))

mutual

/-- Reads fixed text; `text` holds what has been read of it, last character first. -/
def parseText (fields : List Slot) (text : List Char) : List Char → Except PathFault (List PathPart)
  | [] => .ok (textPart text.reverse)
  | c :: cs =>
    if c = '\x7d' then .error .malformed
    else if c = '\x7b' then do
      let parts ← parseName fields [] cs
      return textPart text.reverse ++ parts
    else parseText fields (c :: text) cs

/-- Reads a placeholder after its opening brace; `name` holds what has been read of it, last
character first. -/
def parseName (fields : List Slot) (name : List Char) : List Char → Except PathFault (List PathPart)
  | [] => .error .malformed
  | c :: cs =>
    if c = '\x7b' then .error .malformed
    else if c = '\x7d' then do
      let slot ← capture fields name.reverse
      let parts ← parseText fields [] cs
      return .capture slot :: parts
    else parseName fields (c :: name) cs

end

/-- The names of the path fields that the parts capture. -/
def captured : List PathPart → List String
  | [] => []
  | .text _ :: parts => captured parts
  | .capture slot :: parts => slot.name :: captured parts

/-- The parts of a path template over the given path fields. -/
def parse (fields : List Slot) (path : String) : Except PathFault (List PathPart) := do
  let parts ← parseText fields [] path.toList
  match fields.find? fun f => !(captured parts).contains f.name with
  | some field => .error (.missing field.name)
  | none => .ok parts

end PathTemplate

end HttpStubs.Api

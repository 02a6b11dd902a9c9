import HttpStubs.Service.Binding
import HttpStubs.Service.Definition

/-!
# Service documents

A document holds a service and its HTTP bindings. `Document.check` accepts it if each binding names
a method, each request field of a bound method is bound exactly once, and each reference to a
response field names one.
-/

namespace HttpStubs.Service

/-- A service with its HTTP bindings. -/
structure Document where
  service : Definition
  http : Binding := {}
  deriving DecidableEq, Repr

/-- Why the bindings do not fit the service. -/
inductive BindingFault where
  | unknownMethod (name : String)
  | unknownField (side : Direction) (method field : String)
  | boundTimes (method field : String) (count : Nat)
  deriving DecidableEq, Repr

/-- The wording of a fault. -/
def BindingFault.message : BindingFault → String
  | .unknownMethod name => "HTTP binding refers to unknown method '" ++ name ++ "'"
  | .unknownField side method field =>
    "method '" ++ method ++ "' binds unknown " ++ side.label ++ " field '" ++ field ++ "'"
  | .boundTimes method field count =>
    "request field '" ++ field ++ "' of method '" ++ method ++ "' is bound " ++ count.repr ++
      " times; every request field must be bound exactly once"

/-- Each field with the number of references to it. A reference counts for the first field of its
name. -/
def countReferences : List Field → List String → List (Field × Nat)
  | [], _ => []
  | f :: fs, refs => (f, refs.count f.name) :: countReferences fs (refs.filter (· != f.name))

/-- The first reference that names no field of one side of a method. -/
def Method.unknownReference? (m : Method) (side : Direction) (refs : List String) :
    Option String :=
  refs.find? fun name => (m.field? side name).isNone

/-- Accepts a binding of a method if each request field is bound exactly once and each reference
names a field; otherwise the first fault. -/
def MethodBinding.checkPartition (b : MethodBinding) (m : Method) : Except BindingFault Unit :=
  match m.unknownReference? .request b.requestReferences with
  | some name => .error (.unknownField .request b.name name)
  | none =>
    match (countReferences m.requestFields b.requestReferences).find? (·.2 != 1) with
    | some (field, count) => .error (.boundTimes b.name field.name count)
    | none =>
      match m.unknownReference? .response b.responseReferences with
      | some name => .error (.unknownField .response b.name name)
      | none => .ok ()

/-- Checks one binding against the service. -/
def Definition.checkBinding (s : Definition) (b : MethodBinding) : Except BindingFault Unit :=
  match s.method? b.name with
  | none => .error (.unknownMethod b.name)
  | some m => b.checkPartition m

/-- Checks every binding in order and gives the first fault. -/
def Document.check (d : Document) : Except BindingFault Unit :=
  d.http.methods.forM d.service.checkBinding

end HttpStubs.Service

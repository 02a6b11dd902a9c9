import HttpStubs.Service.ValueType

/-!
# Service definitions

A service has methods, which take and return fields, and declares the records and enums that its
fields refer to. Names need not be distinct: a look-up by name takes the first match.
-/

namespace HttpStubs.Service

/-- What a document says about one of its elements. -/
structure Docs where
  summary : Option String := none
  obsolete : Bool := false
  obsoleteMessage : Option String := none
  deriving DecidableEq, Repr

/-- A field of a request, a response or a record. -/
structure Field where
  name : String
  type : ValueType
  required : Bool := false
  docs : Docs := {}
  deriving DecidableEq, Repr

/-- A record type. -/
structure Dto where
  name : String
  docs : Docs := {}
  fields : List Field := []
  deriving DecidableEq, Repr

/-- One value of an enum. -/
structure EnumValue where
  name : String
  docs : Docs := {}
  deriving DecidableEq, Repr

/-- An enum type. -/
structure EnumType where
  name : String
  docs : Docs := {}
  values : List EnumValue := []
  deriving DecidableEq, Repr

/-- A method with the fields of its request and of its response. -/
structure Method where
  name : String
  docs : Docs := {}
  requestFields : List Field := []
  responseFields : List Field := []
  deriving DecidableEq, Repr

/-- A service with everything that it declares. -/
structure Definition where
  name : String
  docs : Docs := {}
  dtos : List Dto := []
  enums : List EnumType := []
  methods : List Method := []
  deriving DecidableEq, Repr

/-- The side of a method on which a field is looked up. -/
inductive Direction where
  | request
  | response
  deriving DecidableEq, Repr

/-- The word for a side in messages. -/
def Direction.label : Direction → String
  | .request => "request"
  | .response => "response"

/-- The fields of one side of a method. -/
def Method.fields (m : Method) : Direction → List Field
  | .request => m.requestFields
  | .response => m.responseFields

/-- The first field of that name on one side of a method. -/
def Method.field? (m : Method) (side : Direction) (name : String) : Option Field :=
  (m.fields side).find? (·.name == name)

/-- The first method of that name. -/
def Definition.method? (s : Definition) (name : String) : Option Method :=
  s.methods.find? (·.name == name)

end HttpStubs.Service

/-!
# HTTP bindings

How each method travels over HTTP: its verb and path template, the place of each request field, and
the responses that count as success. Fields are referred to by name.
-/

namespace HttpStubs.Service

/-- An HTTP verb. -/
inductive Verb where
  | get
  | post
  | put
  | patch
  | delete
  deriving DecidableEq, Repr

/-- The verb on the wire. -/
def Verb.wire : Verb → String
  | .get => "GET"
  | .post => "POST"
  | .put => "PUT"
  | .patch => "PATCH"
  | .delete => "DELETE"

/-- The verb as a router method. -/
def Verb.route : Verb → String
  | .get => "get"
  | .post => "post"
  | .put => "put"
  | .patch => "patch"
  | .delete => "delete"

/-- Every verb. -/
def Verb.all : List Verb :=
  [.get, .post, .put, .patch, .delete]

/-- A field that has a name of its own on the wire. -/
structure WireField where
  field : String
  name : String
  deriving DecidableEq, Repr

/-- A response that counts as success. -/
structure ValidResponse where
  status : UInt16
  /-- The field that is the whole body. -/
  bodyField : Option String := none
  /-- The fields of the JSON object that is the body. -/
  normalFields : Option (List String) := none
  deriving DecidableEq, Repr

/-- What the body of a response holds. -/
inductive ResponseShape where
  | empty
  | body (field : String)
  | normal (fields : List String)
  deriving DecidableEq, Repr

/-- The shape of a response: a body field goes before normal fields, and an empty list of normal
fields counts as none. -/
def ValidResponse.shape (r : ValidResponse) : ResponseShape :=
  match r.bodyField, r.normalFields with
  | some field, _ => .body field
  | none, some (field :: fields) => .normal (field :: fields)
  | none, _ => .empty

/-- The fields that a response refers to. -/
def ValidResponse.references (r : ValidResponse) : List String :=
  r.bodyField.toList ++ r.normalFields.getD []

/-- How one method travels over HTTP. -/
structure MethodBinding where
  /-- The name of the bound method. -/
  name : String
  verb : Verb
  /-- The path template, with a placeholder for each path field. -/
  path : String
  /-- Fields carried in the path, each under its own name. -/
  pathFields : List String := []
  queryFields : List WireField := []
  requestHeaderFields : List WireField := []
  /-- The field that is the whole request body. -/
  requestBodyField : Option String := none
  /-- The fields of the JSON object that is the request body. -/
  requestNormalFields : List String := []
  responseHeaderFields : List WireField := []
  validResponses : List ValidResponse := []
  deriving DecidableEq, Repr

/-- References to request fields: path, query, headers, body, normal fields. -/
def MethodBinding.requestReferences (b : MethodBinding) : List String :=
  b.pathFields ++ b.queryFields.map (·.field) ++ b.requestHeaderFields.map (·.field) ++
    b.requestBodyField.toList ++ b.requestNormalFields

/-- References to response fields: headers, then response by response. -/
def MethodBinding.responseReferences (b : MethodBinding) : List String :=
  b.responseHeaderFields.map (·.field) ++ b.validResponses.flatMap (·.references)

/-- The HTTP bindings of a service. -/
structure Binding where
  /-- The base URL that the service declares. -/
  url : Option String := none
  methods : List MethodBinding := []
  deriving DecidableEq, Repr

/-- The first binding of the method of that name. -/
def Binding.method? (b : Binding) (name : String) : Option MethodBinding :=
  b.methods.find? (·.name == name)

end HttpStubs.Service

import HttpStubs.Api.PathTemplate
import HttpStubs.Service.Document
import HttpStubs.Text.LetterCase

/-!
# Endpoints

An endpoint is a method with its binding resolved: each reference is replaced by the field it names,
the path template is cut into parts, and the bodies of request and responses are classified. The
endpoints of a service are its API.
-/

namespace HttpStubs.Api

open Service (Field Direction Method MethodBinding BindingFault WireField ValidResponse)

/-- A place that carries values as text. -/
inductive Place where
  | path
  | query
  | requestHeader
  | responseHeader
  deriving DecidableEq, Repr

/-- The words for a place in messages. -/
def Place.label : Place → String
  | .path => "path"
  | .query => "query string"
  | .requestHeader => "request headers"
  | .responseHeader => "response headers"

/-- The side of a method whose fields a place carries. -/
def Place.side : Place → Direction
  | .path | .query | .requestHeader => .request
  | .responseHeader => .response

/-- Why a method cannot be made an endpoint. -/
inductive Fault where
  | binding (fault : BindingFault)
  /-- A field whose type cannot be carried as text. -/
  | slot (method field : String) (place : Place) (type : Service.ValueType)
  | path (method template : String) (fault : PathFault)
  deriving DecidableEq, Repr

/-- The wording of a fault in a path template. -/
def PathFault.message (method path : String) : PathFault → String
  | .malformed => "path '" ++ path ++ "' of method '" ++ method ++ "' is malformed"
  | .invalid placeholder =>
    "path '" ++ path ++ "' of method '" ++ method ++ "' has placeholder '\x7b" ++ placeholder ++
      "\x7d' that is not an identifier"
  | .unbound placeholder =>
    "path '" ++ path ++ "' of method '" ++ method ++ "' has placeholder '\x7b" ++ placeholder ++
      "\x7d' with no path field"
  | .missing field =>
    "path field '" ++ field ++ "' of method '" ++ method ++ "' does not appear in path '" ++ path ++
      "'"

/-- The wording of a fault. -/
def Fault.message : Fault → String
  | .binding fault => fault.message
  | .slot method field place type =>
    "field '" ++ field ++ "' of method '" ++ method ++ "' cannot be carried in the " ++
      place.label ++ ": " ++ Scalar.refusal type
  | .path method template fault => fault.message method template

/-- What the body of a request holds. -/
inductive RequestBody where
  | none
  /-- The value of one field. -/
  | field (field : Field)
  /-- The request itself, all of whose fields are normal fields. -/
  | wholeRequest
  /-- An object of these fields. -/
  | normal (fields : List Field)
  deriving DecidableEq, Repr

/-- What the body of a response holds. -/
inductive ResponseBody where
  | empty
  /-- Nothing: the status alone says that the boolean field is true. -/
  | flag (field : Field)
  /-- The value of one field. -/
  | field (field : Field)
  /-- An object of these fields. -/
  | normal (fields : List Field)
  deriving DecidableEq, Repr

/-- Whether a response fits every value, so that no later one is reached. -/
def ResponseBody.isUnconditional : ResponseBody → Bool
  | .empty | .normal _ => true
  | .flag _ | .field _ => false

/-- A response with its status. -/
structure Response where
  status : UInt16
  body : ResponseBody
  deriving DecidableEq, Repr

/-- A method with its binding resolved. -/
structure Endpoint where
  method : Method
  verb : Service.Verb
  path : List PathPart
  pathFields : List Slot
  queryFields : List Slot
  requestHeaderFields : List Slot
  requestBody : RequestBody
  responseHeaderFields : List Slot
  responses : List Response
  deriving DecidableEq, Repr

namespace Endpoint

/-- The name of the method. -/
def name (e : Endpoint) : String :=
  e.method.name

/-- The interface of the requests. -/
def requestType (e : Endpoint) : String :=
  "I" ++ Text.capitalize e.name ++ "Request"

/-- The interface of the responses. -/
def responseType (e : Endpoint) : String :=
  "I" ++ Text.capitalize e.name ++ "Response"

/-- The field that a reference names. -/
def resolveField (m : Method) (side : Direction) (name : String) : Except Fault Field :=
  match m.field? side name with
  | some field => .ok field
  | none => .error (.binding (.unknownField side m.name name))

/-- The field that a reference names, as a value carried as text. -/
def resolveSlot (m : Method) (place : Place) (ref : WireField) : Except Fault Slot := do
  let field ← resolveField m place.side ref.field
  match Scalar.ofValueType? field.type with
  | some kind => return ⟨field, ref.name, kind⟩
  | none => .error (.slot m.name field.name place field.type)

/-- The body of a request: a body field goes before normal fields, and normal fields as many as the
request has fields are the request itself. -/
def resolveRequestBody (m : Method) (b : MethodBinding) : Except Fault RequestBody :=
  match b.requestBodyField with
  | some name => return .field (← resolveField m .request name)
  | none =>
    if b.requestNormalFields.isEmpty then return .none
    else if b.requestNormalFields.length = m.requestFields.length then return .wholeRequest
    else return .normal (← b.requestNormalFields.mapM (resolveField m .request))

/-- The body of a response; a boolean body field is a flag. -/
def resolveResponse (m : Method) (r : ValidResponse) : Except Fault Response :=
  match r.shape with
  | .empty => return ⟨r.status, .empty⟩
  | .body name => do
    let field ← resolveField m .response name
    return ⟨r.status, if field.type.isBoolean then .flag field else .field field⟩
  | .normal names => return ⟨r.status, .normal (← names.mapM (resolveField m .response))⟩

/-- The endpoint of a method and its binding. -/
def ofBinding (m : Method) (b : MethodBinding) : Except Fault Endpoint := do
  (b.checkPartition m).mapError .binding
  let pathFields ← b.pathFields.mapM fun name => resolveSlot m .path ⟨name, name⟩
  let queryFields ← b.queryFields.mapM (resolveSlot m .query)
  let requestHeaderFields ← b.requestHeaderFields.mapM (resolveSlot m .requestHeader)
  let responseHeaderFields ← b.responseHeaderFields.mapM (resolveSlot m .responseHeader)
  let path ← (PathTemplate.parse pathFields b.path).mapError (.path m.name b.path)
  let requestBody ← resolveRequestBody m b
  let responses ← b.validResponses.mapM (resolveResponse m)
  return {
    method := m
    verb := b.verb
    path, pathFields, queryFields, requestHeaderFields, requestBody, responseHeaderFields,
    responses }

end Endpoint

end HttpStubs.Api

namespace HttpStubs

/-- A service with its endpoints. -/
structure Api where
  service : Service.Definition
  /-- The base URL that the service declares. -/
  baseUri : Option String
  endpoints : List Api.Endpoint
  deriving DecidableEq, Repr

namespace Api

/-- The interface of the service. -/
def interface (a : Api) : String :=
  "I" ++ a.service.name

/-- The class of the client. -/
def clientClass (a : Api) : String :=
  a.service.name ++ "HttpClient"

/-- The API of a document: the endpoints of the bound methods in the order of the methods. A binding
of an unknown method is a fault; a method without a binding is left out. -/
def ofDocument (d : Service.Document) : Except Fault Api := do
  match d.http.methods.find? fun b => (d.service.method? b.name).isNone with
  | some b => .error (.binding (.unknownMethod b.name))
  | none =>
    let endpoints ← (d.service.methods.filterMap fun m =>
      (d.http.method? m.name).map (m, ·)).mapM fun (m, b) => Endpoint.ofBinding m b
    return ⟨d.service, d.http.url, endpoints⟩

end Api

end HttpStubs

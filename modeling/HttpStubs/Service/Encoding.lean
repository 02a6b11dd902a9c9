import HttpStubs.Json.Value
import HttpStubs.Service.Document

/-!
# Writing documents

The JSON value of a document: every member with a default is written, an absent optional one is left
out, and docs stand among the members of their owner.
-/

namespace HttpStubs.Service

/-- The member of an optional value, if it is there. -/
def optionalMember (name : String) (value : Option Json) : List (String × Json) :=
  value.toList.map (name, ·)

/-- The JSON array of a list. -/
def encodeList {α : Type} (encode : α → Json) (values : List α) : Json :=
  .array (values.map encode)

/-- The members of docs. -/
def Docs.encode (d : Docs) : List (String × Json) :=
  optionalMember "summary" (d.summary.map .string) ++ [("obsolete", .bool d.obsolete)] ++
    optionalMember "obsoleteMessage" (d.obsoleteMessage.map .string)

/-- A type, tagged by its kind. -/
def ValueType.encode : ValueType → Json
  | .dto name => .object [("kind", .string "dto"), ("name", .string name)]
  | .enum name => .object [("kind", .string "enum"), ("name", .string name)]
  | .result value => .object [("kind", .string "result"), ("value", value.encode)]
  | .array value => .object [("kind", .string "array"), ("value", value.encode)]
  | .map value => .object [("kind", .string "map"), ("value", value.encode)]
  | .nullable value => .object [("kind", .string "nullable"), ("value", value.encode)]
  | type => .object [("kind", .string type.kind)]

/-- A field. -/
def Field.encode (f : Field) : Json :=
  .object ([("name", .string f.name), ("type", f.type.encode), ("required", .bool f.required)] ++
    f.docs.encode)

/-- A record type. -/
def Dto.encode (d : Dto) : Json :=
  .object ([("name", .string d.name)] ++ d.docs.encode ++
    [("fields", encodeList Field.encode d.fields)])

/-- A value of an enum. -/
def EnumValue.encode (v : EnumValue) : Json :=
  .object ([("name", .string v.name)] ++ v.docs.encode)

/-- An enum type. -/
def EnumType.encode (e : EnumType) : Json :=
  .object ([("name", .string e.name)] ++ e.docs.encode ++
    [("values", encodeList EnumValue.encode e.values)])

/-- A method. -/
def Method.encode (m : Method) : Json :=
  .object ([("name", .string m.name)] ++ m.docs.encode ++
    [("requestFields", encodeList Field.encode m.requestFields),
      ("responseFields", encodeList Field.encode m.responseFields)])

/-- A service. -/
def Definition.encode (s : Definition) : Json :=
  .object ([("name", .string s.name)] ++ s.docs.encode ++
    [("dtos", encodeList Dto.encode s.dtos), ("enums", encodeList EnumType.encode s.enums),
      ("methods", encodeList Method.encode s.methods)])

/-- A reference to a field. -/
def encodeReference (name : String) : Json :=
  .object [("field", .string name)]

/-- A field with its name on the wire. -/
def WireField.encode (f : WireField) : Json :=
  .object [("field", .string f.field), ("name", .string f.name)]

/-- A response that counts as success. -/
def ValidResponse.encode (r : ValidResponse) : Json :=
  .object ([("statusCode", .number (.ofNat r.status.toNat))] ++
    optionalMember "bodyField" (r.bodyField.map encodeReference) ++
    optionalMember "normalFields" (r.normalFields.map (encodeList encodeReference)))

/-- The binding of a method. -/
def MethodBinding.encode (b : MethodBinding) : Json :=
  .object ([("name", .string b.name), ("verb", .string b.verb.wire), ("path", .string b.path),
    ("pathFields", encodeList encodeReference b.pathFields),
    ("queryFields", encodeList WireField.encode b.queryFields),
    ("requestHeaderFields", encodeList WireField.encode b.requestHeaderFields)] ++
    optionalMember "requestBodyField" (b.requestBodyField.map encodeReference) ++
    [("requestNormalFields", encodeList encodeReference b.requestNormalFields),
    ("responseHeaderFields", encodeList WireField.encode b.responseHeaderFields),
    ("validResponses", encodeList ValidResponse.encode b.validResponses)])

/-- The bindings of a service. -/
def Binding.encode (b : Binding) : Json :=
  .object (optionalMember "url" (b.url.map .string) ++
    [("methods", encodeList MethodBinding.encode b.methods)])

/-- A document. -/
def Document.encode (d : Document) : Json :=
  .object [("service", d.service.encode), ("http", d.http.encode)]

end HttpStubs.Service

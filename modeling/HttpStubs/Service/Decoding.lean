import HttpStubs.Json.Decoder
import HttpStubs.Json.Reader
import HttpStubs.Service.Document

/-!
# Reading documents

Decoders from JSON for everything in a service document. Records of the HTTP bindings may also be
arrays of their fields; records that carry docs have the members of the docs among their own and are
always objects. A type is an object or an array that starts with its kind.
-/

namespace HttpStubs.Service

open Json (Decoder Members recordMembers? strictMembers?)

/-! ## Types -/

/-- A type as it is given by its kind: complete, or in need of a name or of an element type. -/
inductive TypeKind where
  | plain (type : ValueType)
  | named (type : String → ValueType)
  | container (type : ValueType → ValueType)

/-- The kinds in order, each with its name. -/
def TypeKind.all : List (String × TypeKind) :=
  [("string", .plain .string), ("bytes", .plain .bytes), ("boolean", .plain .boolean),
    ("int32", .plain .int32), ("int64", .plain .int64), ("double", .plain .double),
    ("decimal", .plain .decimal), ("object", .plain .object), ("error", .plain .error),
    ("dto", .named .dto), ("enum", .named .enum), ("result", .container .result),
    ("array", .container .array), ("map", .container .map), ("nullable", .container .nullable)]

/-- The kind that a value names. Inside another type (`nested`) its index will do. -/
def TypeKind.decode (nested : Bool) : Json → Option TypeKind
  | .string name => TypeKind.all.lookup name
  | .number n => if nested then do (TypeKind.all[← n.toNat?]?).map (·.2) else none
  | _ => none

/-- The type of a value all of which has a meaning. -/
def ValueType.decodeKind (nested : Bool) : Decoder ValueType
  | 0, _ => none
  | _ + 1, .array [kind] => do
    match ← TypeKind.decode nested kind with
    | .plain type => some type
    | _ => none
  | room + 1, .array [kind, argument] => do
    match ← TypeKind.decode nested kind with
    | .plain _ => none
    | .named type => (Decoder.string room argument).map type
    | .container type => (decodeKind true room argument).map type
  | room + 1, .object members => do
    let kinds ← Json.knownMembers? ["kind"] members
    match ← (kinds.lookup "kind").bind (TypeKind.decode nested) with
    | .plain type => some type
    | .named type => do
      let names ← Json.knownMembers? ["name"] members
      (← (names.lookup "name").map (Decoder.string room)).map type
    | .container type => do
      let values ← Json.knownMembers? ["value"] members
      (← (values.lookup "value").map (decodeKind true room)).map type
  | _, _ => none

/-- The type of a value. -/
def ValueType.decode : Decoder ValueType := fun room j =>
  if j.fits room then decodeKind false room j else none

/-! ## Service definitions -/

/-- The members that docs have. -/
def Docs.fields : List String :=
  ["summary", "obsolete", "obsoleteMessage"]

/-- Docs among the members of another record. -/
def Docs.ofMembers (room : Nat) (members : Members) : Option Docs := do
  return {
    summary := ← members.optional room "summary" Decoder.string
    obsolete := ← members.withDefault room "obsolete" false Decoder.bool
    obsoleteMessage := ← members.optional room "obsoleteMessage" Decoder.string }

/-- Docs on their own. -/
def Docs.decode : Decoder Docs
  | 0, _ => none
  | room + 1, j => do Docs.ofMembers room (← recordMembers? Docs.fields j)

/-- A field. -/
def Field.decode : Decoder Field
  | 0, _ => none
  | room + 1, j => do
    let members ← strictMembers? (["name", "type", "required"] ++ Docs.fields) room j
    return {
      name := ← members.required room "name" Decoder.string
      type := ← members.required room "type" ValueType.decode
      required := ← members.withDefault room "required" false Decoder.bool
      docs := ← Docs.ofMembers room members }

/-- A record type. -/
def Dto.decode : Decoder Dto
  | 0, _ => none
  | room + 1, j => do
    let members ← strictMembers? (["name", "fields"] ++ Docs.fields) room j
    return {
      name := ← members.required room "name" Decoder.string
      docs := ← Docs.ofMembers room members
      fields := ← members.withDefault room "fields" [] (Decoder.list Field.decode) }

/-- A value of an enum. -/
def EnumValue.decode : Decoder EnumValue
  | 0, _ => none
  | room + 1, j => do
    let members ← strictMembers? (["name"] ++ Docs.fields) room j
    return {
      name := ← members.required room "name" Decoder.string
      docs := ← Docs.ofMembers room members }

/-- An enum type. -/
def EnumType.decode : Decoder EnumType
  | 0, _ => none
  | room + 1, j => do
    let members ← strictMembers? (["name", "values"] ++ Docs.fields) room j
    return {
      name := ← members.required room "name" Decoder.string
      docs := ← Docs.ofMembers room members
      values := ← members.withDefault room "values" [] (Decoder.list EnumValue.decode) }

/-- A method. -/
def Method.decode : Decoder Method
  | 0, _ => none
  | room + 1, j => do
    let members ← strictMembers? (["name", "requestFields", "responseFields"] ++ Docs.fields) room j
    let fields := Decoder.list Field.decode
    return {
      name := ← members.required room "name" Decoder.string
      docs := ← Docs.ofMembers room members
      requestFields := ← members.withDefault room "requestFields" [] fields
      responseFields := ← members.withDefault room "responseFields" [] fields }

/-- A service. -/
def Definition.decode : Decoder Definition
  | 0, _ => none
  | room + 1, j => do
    let members ← strictMembers? (["name", "dtos", "enums", "methods"] ++ Docs.fields) room j
    return {
      name := ← members.required room "name" Decoder.string
      docs := ← Docs.ofMembers room members
      dtos := ← members.withDefault room "dtos" [] (Decoder.list Dto.decode)
      enums := ← members.withDefault room "enums" [] (Decoder.list EnumType.decode)
      methods := ← members.withDefault room "methods" [] (Decoder.list Method.decode) }

/-! ## HTTP bindings -/

/-- The verb of a wire name. -/
def Verb.ofWire? (name : String) : Option Verb :=
  Verb.all.find? (·.wire == name)

/-- A verb by its name, or as an object with the name as its only member and no value. -/
def Verb.decode : Decoder Verb
  | _, .string name => Verb.ofWire? name
  | _ + 1, .object [(name, .null)] => Verb.ofWire? name
  | _, _ => none

/-- A reference to a field. -/
def decodeReference : Decoder String
  | 0, _ => none
  | room + 1, j => do
    (← recordMembers? ["field"] j).required room "field" Decoder.string

/-- A field with its name on the wire. -/
def WireField.decode : Decoder WireField
  | 0, _ => none
  | room + 1, j => do
    let members ← recordMembers? ["field", "name"] j
    return {
      field := ← members.required room "field" Decoder.string
      name := ← members.required room "name" Decoder.string }

/-- A response that counts as success. -/
def ValidResponse.decode : Decoder ValidResponse
  | 0, _ => none
  | room + 1, j => do
    let members ← recordMembers? ["statusCode", "bodyField", "normalFields"] j
    return {
      status := ← members.required room "statusCode" Decoder.uint16
      bodyField := ← members.optional room "bodyField" decodeReference
      normalFields := ← members.optional room "normalFields" (Decoder.list decodeReference) }

/-- The binding of a method. -/
def MethodBinding.decode : Decoder MethodBinding
  | 0, _ => none
  | room + 1, j => do
    let members ← recordMembers? ["name", "verb", "path", "pathFields", "queryFields",
      "requestHeaderFields", "requestBodyField", "requestNormalFields", "responseHeaderFields",
      "validResponses"] j
    let references := Decoder.list decodeReference
    let wireFields := Decoder.list WireField.decode
    return {
      name := ← members.required room "name" Decoder.string
      verb := ← members.required room "verb" Verb.decode
      path := ← members.required room "path" Decoder.string
      pathFields := ← members.withDefault room "pathFields" [] references
      queryFields := ← members.withDefault room "queryFields" [] wireFields
      requestHeaderFields := ← members.withDefault room "requestHeaderFields" [] wireFields
      requestBodyField := ← members.optional room "requestBodyField" decodeReference
      requestNormalFields := ← members.withDefault room "requestNormalFields" [] references
      responseHeaderFields := ← members.withDefault room "responseHeaderFields" [] wireFields
      validResponses :=
        ← members.withDefault room "validResponses" [] (Decoder.list ValidResponse.decode) }

/-- The bindings of a service. -/
def Binding.decode : Decoder Binding
  | 0, _ => none
  | room + 1, j => do
    let members ← recordMembers? ["url", "methods"] j
    return {
      url := ← members.optional room "url" Decoder.string
      methods := ← members.withDefault room "methods" [] (Decoder.list MethodBinding.decode) }

/-- A document. -/
def Document.decode : Decoder Document
  | 0, _ => none
  | room + 1, j => do
    let members ← recordMembers? ["service", "http"] j
    return {
      service := ← members.required room "service" Definition.decode
      http := ← members.withDefault room "http" {} Binding.decode }

/-! ## Texts -/

/-- How deep the values that are read from a text may nest. -/
def maxNesting : Nat := 127

/-- What a decoder reads from a JSON text. -/
def ofText? {α : Type} (decoder : Decoder α) (text : String) : Option α := do
  decoder maxNesting (← Json.ofText? text)

/-- The document of a JSON text. -/
def Document.ofText? (text : String) : Option Document :=
  Service.ofText? Document.decode text

end HttpStubs.Service

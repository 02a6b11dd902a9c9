import HttpStubs.Code.DocComment
import HttpStubs.Code.TypeExpr
import HttpStubs.Options
import HttpStubs.Stub.Section

/-!
# Type declarations

The interface of the service, the interfaces of requests, responses and records, and the enums.
Every field is optional in its interface.
-/

namespace HttpStubs.Stub.Types

open Api (Endpoint)
open Code

/-- A field of an interface. -/
def fieldSteps (f : Service.Field) : List Step :=
  .blank :: (DocComment.ofDocs f.docs).steps ++
    [.line (propertyKey f.name ++ "?: " ++ (TypeExpr.ofValueType f.type).text ++ ";")]

/-- An interface with its fields. -/
def recordSteps (name : String) (comment : DocComment) (fields : List Service.Field) : List Step :=
  comment.steps ++ [.braces ("export interface " ++ name) (fields.flatMap fieldSteps)]

/-- The signature of an endpoint's method. -/
def methodSteps (e : Endpoint) : List Step :=
  .blank :: (DocComment.ofDocs e.method.docs).steps ++
    [.line (e.name ++ "(request: " ++ e.requestType ++ ", context?: unknown): Promise<" ++
      serviceResult ++ "<" ++ e.responseType ++ ">>;")]

/-- The interface of the service. -/
def serviceSteps (api : Api) : List Step :=
  (DocComment.ofDocs api.service.docs).steps ++
    [.braces ("export interface " ++ api.interface) (api.endpoints.flatMap methodSteps)]

/-- The interfaces of an endpoint's requests and responses. -/
def endpointSteps (e : Endpoint) : List Step :=
  .blank :: recordSteps e.requestType (.ofText ("Request for " ++ e.name ++ "."))
      e.method.requestFields ++
    .blank :: recordSteps e.responseType (.ofText ("Response for " ++ e.name ++ "."))
      e.method.responseFields

/-- The interface of a record type. -/
def dtoSteps (d : Service.Dto) : List Step :=
  .blank :: recordSteps (dtoInterface d.name) (.ofDocs d.docs) d.fields

/-- A value of an enum. -/
def enumValueSteps (v : Service.EnumValue) : List Step :=
  .blank :: (DocComment.ofDocs v.docs).steps ++
    [.line (propertyKey v.name ++ " = " ++ literal v.name ++ ",")]

/-- An enum. -/
def enumSteps (e : Service.EnumType) : List Step :=
  .blank :: (DocComment.ofDocs e.docs).steps ++
    [.braces ("export enum " ++ e.name) (e.values.flatMap enumValueSteps)]

/-- Every field that is declared in some interface. -/
def declaredFields (api : Api) : List Service.Field :=
  api.endpoints.flatMap (fun e => e.method.requestFields ++ e.method.responseFields) ++
    api.service.dtos.flatMap (·.fields)

/-- The names that the declarations refer to. -/
def references (api : Api) : List String :=
  (if api.endpoints.isEmpty then [] else [serviceResult]) ++
    (declaredFields api).flatMap fun f => (TypeExpr.ofValueType f.type).references

/-- The types that are imported from the runtime package. -/
def runtimeTypes (api : Api) : List String :=
  [serviceResult, serviceError].filter fun name => (references api).contains name

/-- The declarations in order. -/
def declarations (api : Api) : List Declaration :=
  ⟨api.interface, .interface⟩ ::
    api.endpoints.flatMap (fun e => [⟨e.requestType, .interface⟩, ⟨e.responseType, .interface⟩]) ++
    api.service.dtos.map (fun d => ⟨dtoInterface d.name, .interface⟩) ++
    api.service.enums.map (fun e => ⟨e.name, .enum⟩)

/-- The section of the type declarations. -/
def emit (api : Api) (options : Options) : Section where
  imports :=
    if (runtimeTypes api).isEmpty then []
    else [{ items := runtimeTypes api, source := options.runtimePackage, typeOnly := true }]
  exports := declarations api
  code :=
    serviceSteps api ++ api.endpoints.flatMap endpointSteps ++ api.service.dtos.flatMap dtoSteps ++
      api.service.enums.flatMap enumSteps

end HttpStubs.Stub.Types

import HttpStubs.Proofs.LocalImports
import HttpStubs.Proofs.TypeGrammar

/-!
# Names in types

Rendering keeps the shape of a value type: every union adds `null` to a type that is no union itself
(`flat_ofValueType`). It keeps the names as well: the references are the names of the parts, in the
order of the parts (`references_ofValueType`). The types artifact is laid out as the interfaces with
their fields (`code_emit`), and these fields and the signatures of the methods decide which types it
imports from the runtime package.
-/

namespace HttpStubs

/-- A type and the types inside it, the outer ones first. -/
def Service.ValueType.parts : ValueType → List ValueType
  | .result value => .result value :: value.parts
  | .array value => .array value :: value.parts
  | .map value => .map value :: value.parts
  | .nullable value => .nullable value :: value.parts
  | t => [t]

namespace Code.TypeExpr

/-! ## Unions -/

mutual

/-- An expression and the expressions inside it, the outer ones first. -/
def parts : TypeExpr → List TypeExpr
  | .primitive p => [.primitive p]
  | .array element => .array element :: element.parts
  | .union members => .union members :: partsAll members
  | .record key value => .record key value :: (key.parts ++ value.parts)
  | .generic name arguments => .generic name arguments :: partsAll arguments
  | .ref name => [.ref name]

/-- The parts of some expressions. -/
def partsAll : List TypeExpr → List TypeExpr
  | [] => []
  | e :: es => e.parts ++ partsAll es

end

/-- The members of a union are `null` and, before it, a type that is neither `null` nor a union. -/
def AddsNull (members : List TypeExpr) : Prop :=
  ∃ e : TypeExpr, members = [e, .primitive .null] ∧ e.isUnion = false ∧ e.isNull = false

/-- Every union in an expression adds `null` to a type. -/
def Flat (e : TypeExpr) : Prop :=
  ∀ members, .union members ∈ e.parts → AddsNull members

theorem flat_primitive (p : Primitive) : Flat (.primitive p) := by
  simp [Flat, parts]

theorem flat_ref (name : String) : Flat (.ref name) := by
  simp [Flat, parts]

namespace Flat

variable {e : TypeExpr}

/-- An expression has no unions but those of another one. -/
theorem of_parts {e' : TypeExpr} (h : e.Flat)
    (hparts : ∀ members, .union members ∈ e'.parts → .union members ∈ e.parts) : e'.Flat :=
  fun members hmembers => h members (hparts members hmembers)

theorem array (h : e.Flat) : Flat (.array e) :=
  h.of_parts (by simp [parts])

theorem stringRecord (h : e.Flat) : Flat e.stringRecord :=
  h.of_parts (by simp [TypeExpr.stringRecord, parts])

theorem generic (h : e.Flat) (name : String) : Flat (.generic name [e]) :=
  h.of_parts (by simp [parts, partsAll])

/-- A union that adds `null` has it already; to any other type it is added. -/
theorem orNull_cases (h : e.Flat) :
    e.orNull = e ∨ e.isUnion = false ∧ e.orNull = .union [e, .primitive .null] := by
  cases hunion : e.isUnion with
  | false => exact .inr ⟨rfl, orNull_of_not_union hunion⟩
  | true =>
    left
    cases e with
    | union members =>
      obtain ⟨e, rfl, -⟩ := h members List.mem_cons_self
      simp [orNull, isNull]
    | _ => cases hunion

theorem orNull (h : e.Flat) (hnull : e.isNull = false) : Flat e.orNull := by
  rcases h.orNull_cases with hsame | ⟨hunion, hadded⟩
  · rwa [hsame]
  · rw [hadded]
    intro members hmembers
    have hcases : members = [e, .primitive .null] ∨ .union members ∈ e.parts := by
      simpa [parts, partsAll] using hmembers
    rcases hcases with rfl | hinner
    · exact ⟨e, rfl, hunion, hnull⟩
    · exact h members hinner

end Flat

theorem isNull_orNull (e : TypeExpr) : e.orNull.isNull = false := by
  cases e <;> rfl

theorem isNull_ofValueType (t : Service.ValueType) : (ofValueType t).isNull = false := by
  cases t with
  | nullable value => exact isNull_orNull _
  | _ => rfl

theorem flat_ofValueType (t : Service.ValueType) : Flat (ofValueType t) := by
  induction t with
  | string | bytes | boolean | int32 | int64 | double | decimal => exact flat_primitive _
  | object => exact (flat_primitive .unknown).stringRecord
  | error | dto | enum => exact flat_ref _
  | result value ih => exact ih.generic serviceResult
  | array value ih => exact ih.array
  | map value ih => exact ih.stringRecord
  | nullable value ih => exact ih.orNull (isNull_ofValueType value)

theorem isUnion_orNull (e : TypeExpr) : e.orNull.isUnion = true := by
  cases e <;> rfl

theorem ofValueType_nullable_nullable (t : Service.ValueType) :
    ofValueType (.nullable (.nullable t)) = ofValueType (.nullable t) := by
  rcases (flat_ofValueType (.nullable t)).orNull_cases with hsame | ⟨hunion, -⟩
  · exact hsame
  · exact absurd (isUnion_orNull (ofValueType t)) (ne_true_of_eq_false hunion)

/-! ## References -/

/-- The name that a value type is referred to by, apart from the types inside it. -/
def outerName? : Service.ValueType → Option String
  | .dto name => some (dtoInterface name)
  | .enum name => some name
  | .error => some serviceError
  | .result _ => some serviceResult
  | _ => none

theorem referencesAll_append (es more : List TypeExpr) :
    referencesAll (es ++ more) = referencesAll es ++ referencesAll more := by
  induction es with
  | nil => rfl
  | cons e es ih => rw [List.cons_append, referencesAll, ih, referencesAll, List.append_assoc]

theorem references_orNull (e : TypeExpr) : e.orNull.references = e.references := by
  cases e with
  | union members =>
    rw [orNull, references, references]
    split_ifs
    · rfl
    · rw [referencesAll_append]
      exact List.append_nil _
  | _ => exact List.append_nil _

/-- A rendered type refers to the names of the parts, in their order. -/
theorem references_ofValueType (t : Service.ValueType) :
    (ofValueType t).references = t.parts.filterMap outerName? := by
  induction t with
  | result value ih =>
    -- The name of the result comes before those of its value on both sides.
    rw [ofValueType, references, referencesAll, referencesAll, List.append_nil, ih]
    rfl
  | array value ih => exact ih
  | map value ih => exact ih
  | nullable value ih => exact (references_orNull _).trans ih
  | _ => rfl

theorem mem_references_ofValueType_iff {t : Service.ValueType} {name : String} :
    name ∈ (ofValueType t).references ↔
      (∃ n, .dto n ∈ t.parts ∧ name = "I" ++ n) ∨ .enum name ∈ t.parts ∨
        (.error ∈ t.parts ∧ name = serviceError) ∨
        (∃ value, .result value ∈ t.parts) ∧ name = serviceResult := by
  rw [references_ofValueType, List.mem_filterMap]
  constructor
  · rintro ⟨part, hpart, hname⟩
    cases part with
    | dto n => exact .inl ⟨n, hpart, (Option.some.inj hname).symm⟩
    | enum n =>
      obtain rfl := Option.some.inj hname
      exact .inr (.inl hpart)
    | error => exact .inr (.inr (.inl ⟨hpart, (Option.some.inj hname).symm⟩))
    | result value =>
      exact .inr (.inr (.inr ⟨⟨value, hpart⟩, (Option.some.inj hname).symm⟩))
    | _ => cases hname
  · rintro (⟨n, hpart, rfl⟩ | hpart | ⟨hpart, rfl⟩ | ⟨⟨value, hpart⟩, rfl⟩)
    · exact ⟨_, hpart, rfl⟩
    · exact ⟨_, hpart, rfl⟩
    · exact ⟨_, hpart, rfl⟩
    · exact ⟨_, hpart, rfl⟩

end Code.TypeExpr

/-! ## The types artifact -/

theorem Api.endpoints_ne_nil_iff {d : Service.Document} {api : Api} (h : ofDocument d = .ok api) :
    api.endpoints ≠ [] ↔ ∃ m ∈ d.service.methods, (d.http.method? m.name).isSome := by
  obtain ⟨-, -, -, hendpoints⟩ := ofDocument_eq_ok_iff.1 h
  constructor
  · intro hne
    obtain ⟨e, he⟩ := List.exists_mem_of_ne_nil _ hne
    obtain ⟨⟨m, b⟩, hbound, -⟩ := exists_of_mem_right hendpoints he
    obtain ⟨hm, hb⟩ := mem_boundMethods_iff.1 hbound
    exact ⟨m, hm, Option.isSome_of_mem hb⟩
  · rintro ⟨m, hm, hb⟩
    obtain ⟨b, hb⟩ := Option.isSome_iff_exists.1 hb
    obtain ⟨e, he, -⟩ := exists_of_mem_left hendpoints (mem_boundMethods_iff.2 ⟨hm, hb⟩)
    exact List.ne_nil_of_mem he

namespace Stub

open Code
open Api (Endpoint)

namespace Types

/-- An interface that is declared with fields. -/
structure Record where
  name : String
  comment : DocComment
  fields : List Service.Field

/-- The declaration of an interface with fields. -/
def Record.steps (r : Record) : List Step :=
  .blank :: recordSteps r.name r.comment r.fields

/-- The interfaces of an endpoint's requests and responses. -/
def endpointRecords (e : Endpoint) : List Record :=
  [⟨e.requestType, .ofText ("Request for " ++ e.name ++ "."), e.method.requestFields⟩,
    ⟨e.responseType, .ofText ("Response for " ++ e.name ++ "."), e.method.responseFields⟩]

/-- The interfaces with fields, in the order in which they are declared. -/
def records (api : Api) : List Record :=
  api.endpoints.flatMap endpointRecords ++
    api.service.dtos.map fun d => ⟨dtoInterface d.name, .ofDocs d.docs, d.fields⟩

/-- The declarations in order. -/
def code (api : Api) : List Step :=
  serviceSteps api ++ (records api).flatMap Record.steps ++ api.service.enums.flatMap enumSteps

theorem code_emit (api : Api) (options : Options) :
    (emit api options).code = code api := by
  have hendpoints : api.endpoints.flatMap endpointSteps =
      (api.endpoints.flatMap endpointRecords).flatMap Record.steps := by
    rw [List.flatMap_assoc]
    congr 1
    funext e
    simp [endpointSteps, endpointRecords, Record.steps]
  rw [code, records, List.flatMap_append, ← hendpoints, List.flatMap_map, ← List.append_assoc]
  rfl

/-- The fields that count for references are those of the declared interfaces. -/
theorem declaredFields_eq (api : Api) : declaredFields api = (records api).flatMap (·.fields) := by
  rw [records, List.flatMap_append, List.flatMap_assoc, List.flatMap_map]
  simp [declaredFields, endpointRecords]

theorem mem_references_iff {api : Api} {name : String} :
    name ∈ references api ↔
      (∃ r ∈ records api, ∃ f ∈ r.fields, name ∈ (TypeExpr.ofValueType f.type).references) ∨
        name = serviceResult ∧ api.endpoints ≠ [] := by
  have hsignature : name ∈ (if api.endpoints.isEmpty then [] else [serviceResult]) ↔
      name = serviceResult ∧ api.endpoints ≠ [] := by
    cases api.endpoints <;> simp
  rw [references, List.mem_append, hsignature, declaredFields_eq, List.flatMap_assoc, or_comm]
  simp only [List.mem_flatMap]

/-- The declaration that imports some types of the runtime package. -/
def runtimeImports (options : Options) (names : List String) : List Import :=
  if names.isEmpty then []
  else [{ items := names, source := options.runtimePackage, typeOnly := true }]

theorem merge_runtimeImports (options : Options) (names : List String) :
    Import.merge (runtimeImports options names) = runtimeImports options names := by
  unfold runtimeImports
  split_ifs <;> rfl

/-- The types artifact, if it imports these types of the runtime package. -/
def layout (api : Api) (options : Options) (names : List String) : Layout where
  imports := runtimeImports options names
  types := []
  codes := [Step.lineList (code api)]
  reader := false

theorem layout_types (api : Api) (options : Options) (name : String) :
    Plan.layout ⟨name, [emit api options], none⟩ options =
      layout api options (runtimeTypes api) := by
  have himports : [emit api options].flatMap (·.imports) =
      runtimeImports options (runtimeTypes api) := List.append_nil _
  rw [Plan.layout, himports, merge_runtimeImports, layout, ← code_emit api options]
  rfl

end Types

/-- Rendered types keep their shape and their names. Every union adds `null` to a type that is
neither `null` nor a union, so that a second `nullable` adds nothing. The references are the
interfaces of the records in the type, its enums, and the types of errors and results where these
occur. The types artifact imports a type of the runtime package if and only if a field that it
declares refers to it or, for results, if some method is bound. -/
theorem type_references_exact :
    (∀ t : Service.ValueType,
      (∀ members, .union members ∈ (TypeExpr.ofValueType t).parts →
        ∃ e : TypeExpr, members = [e, .primitive .null] ∧ e.isUnion = false ∧ e.isNull = false) ∧
      TypeExpr.ofValueType (.nullable (.nullable t)) = .ofValueType (.nullable t) ∧
      ∀ name, name ∈ (TypeExpr.ofValueType t).references ↔
        (∃ n, .dto n ∈ t.parts ∧ name = "I" ++ n) ∨ .enum name ∈ t.parts ∨
          (.error ∈ t.parts ∧ name = serviceError) ∨
          (∃ value, .result value ∈ t.parts) ∧ name = serviceResult) ∧
    ∀ (d : Service.Document) (options : Options) (made : List Artifact),
      generate d options = .ok made → options.dialect = .typeScript → options.singleFile = false →
      ∃ (api : Api) (names : List String) (others : List Artifact),
        Api.ofDocument d = .ok api ∧
        made = ⟨moduleName options d.service ++ "Types.ts", Writer.textOf options.newline
          ((Types.layout api options names).lineList options)⟩ :: others ∧
        names.Sublist [serviceResult, serviceError] ∧
        ∀ name ∈ [serviceResult, serviceError], name ∈ names ↔
          (∃ r ∈ Types.records api, ∃ f ∈ r.fields,
            name ∈ (TypeExpr.ofValueType f.type).references) ∨
          name = serviceResult ∧ ∃ m ∈ d.service.methods, (d.http.method? m.name).isSome := by
  refine ⟨fun t => ⟨TypeExpr.flat_ofValueType t, TypeExpr.ofValueType_nullable_nullable t,
    fun name => TypeExpr.mem_references_ofValueType_iff⟩, ?_⟩
  intro d options made hmade typed separate
  obtain ⟨api, hapi, hmade⟩ := bind_eq_ok_iff.1 hmade
  have hservice : api.service = d.service := (Api.ofDocument_eq_ok_iff.1 hapi).2.1
  have hartifacts := artifacts_typed api typed separate
  simp only [pure_eq_ok_iff.1 hmade, hservice, Types.layout_types] at hartifacts
  refine ⟨api, Types.runtimeTypes api, _, hapi, hartifacts, List.filter_sublist, ?_⟩
  intro name hname
  rw [Types.runtimeTypes, List.mem_filter, List.contains_iff_mem, Types.mem_references_iff,
    Api.endpoints_ne_nil_iff hapi, and_iff_right hname]

/-- Lists of errors under string keys, where each list may be missing. -/
def faultsType : Service.ValueType :=
  .map (.nullable (.nullable (.array .error)))

/-- A record that holds errors, and a method without a binding that gives a result. -/
def auditDocument : Service.Document where
  service := {
    name := "Audit"
    methods := [{
      name := "getReport"
      responseFields := [{ name := "report", type := .result (.dto "Report") }] }]
    dtos := [{ name := "Report", fields := [{ name := "faults", type := faultsType }] }] }

def auditApi : Api where
  service := auditDocument.service
  baseUri := none
  endpoints := []

/-- The artifact imports the type of errors, and not that of results: nothing of the method is
declared. -/
theorem audit_references_exact :
    .union [.array (.ref serviceError), .primitive .null] ∈
        (TypeExpr.ofValueType faultsType).parts ∧
      (TypeExpr.array (.ref serviceError)).isUnion = false ∧
      Step.lineList (Types.code auditApi) = ["export interface IAudit \x7b", "\x7d", "",
        "export interface IReport \x7b",
        "\tfaults?: Record<string, IServiceError[] | null>;", "\x7d"] ∧
      ∃ (names : List String) (others : List Artifact),
        generate auditDocument {} = .ok (⟨"auditTypes.ts",
          Writer.textOf .lf ((Types.layout auditApi {} names).lineList {})⟩ :: others) ∧
        serviceError ∈ names ∧ serviceResult ∉ names := by
  have hunion : .union [.array (.ref serviceError), .primitive .null] ∈
      (TypeExpr.ofValueType faultsType).parts := .tail _ (.tail _ (.head _))
  have hmade : generate auditDocument {} = .ok (artifacts auditApi {}) := rfl
  obtain ⟨htypes, hartifacts⟩ := type_references_exact
  obtain ⟨e, hmembers, hplain, -⟩ := (htypes faultsType).1 _ hunion
  obtain rfl : TypeExpr.array (.ref serviceError) = e := (List.cons.inj hmembers).1
  obtain ⟨api, names, others, hapi, hfiles, -, hnames⟩ := hartifacts auditDocument {} _ hmade rfl rfl
  obtain rfl : auditApi = api := Except.ok.inj hapi
  refine ⟨hunion, hplain, by decide +kernel, names, others, ?_, ?_, ?_⟩
  · rw [hmade, hfiles]
    rfl
  · exact (hnames serviceError (by decide)).2 (by decide)
  · exact mt (hnames serviceResult (by decide)).1 (by decide)

end Stub

end HttpStubs

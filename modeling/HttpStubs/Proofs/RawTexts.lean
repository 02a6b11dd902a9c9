import Mathlib.Data.List.Basic
import Mathlib.Tactic.Tauto
import HttpStubs.Proofs.LineBreaks
import HttpStubs.Stub.Artifact

/-!
# Texts that sections hold as they are

Most texts of a document are escaped, quoted or cut into lines on their way into code. Those that
are not are listed here for each section (`rawTexts`): names, types, the messages on obsolete
elements, the fixed parts of a path that is written as a template, and the enums of casts. A section
holds a line feed exactly if one of these texts does (`holds_emit`).
-/

namespace HttpStubs

open Code

/-! ## Types -/

namespace Stub

open Api (Endpoint PathPart Response ResponseBody Slot)
open DocComment (shownMessage)

theorem lf_mem_requestType {e : Endpoint} : '\n' ∈ e.requestType.toList ↔ '\n' ∈ e.name.toList := by
  simp [Endpoint.requestType]

theorem lf_mem_responseType {e : Endpoint} :
    '\n' ∈ e.responseType.toList ↔ '\n' ∈ e.name.toList := by
  simp [Endpoint.responseType]

namespace Types

/-- The texts that the declaration of a field holds as they are. -/
def fieldTexts (f : Service.Field) : List String :=
  shownMessage f.docs ++ (TypeExpr.ofValueType f.type).references

def endpointTexts (e : Endpoint) : List String :=
  e.name :: shownMessage e.method.docs ++
    (e.method.requestFields ++ e.method.responseFields).flatMap fieldTexts

def dtoTexts (d : Service.Dto) : List String :=
  d.name :: shownMessage d.docs ++ d.fields.flatMap fieldTexts

def enumTexts (e : Service.EnumType) : List String :=
  e.name :: shownMessage e.docs ++ e.values.flatMap fun v => shownMessage v.docs

/-- The texts that the type declarations hold as they are. -/
def rawTexts (api : Api) : List String :=
  api.service.name :: shownMessage api.service.docs ++ api.endpoints.flatMap endpointTexts ++
    api.service.dtos.flatMap dtoTexts ++ api.service.enums.flatMap enumTexts

theorem holds_fieldSteps (f : Service.Field) :
    Holds '\n' (Step.textsAll (fieldSteps f)) ↔ Holds '\n' (fieldTexts f) := by
  simp [fieldSteps, fieldTexts, DocComment.holds_steps, DocComment.holds_ofDocs,
    TypeExpr.lf_mem_text, Step.texts]

theorem holds_recordSteps {name : String} {comment : DocComment} {fields : List Service.Field} :
    Holds '\n' (Step.textsAll (recordSteps name comment fields)) ↔
      '\n' ∈ name.toList ∨ Holds '\n' comment.lines ∨ Holds '\n' (fields.flatMap fieldTexts) := by
  simp only [recordSteps, Step.braces, Step.textsAll_append, Step.textsAll_cons, Step.textsAll_nil,
    Step.textsAll_flatMap, Step.texts, holds_append, holds_cons, holds_nil, holds_flatMap,
    holds_fieldSteps, DocComment.holds_steps]
  simp [or_left_comm]

theorem holds_methodSteps (e : Endpoint) :
    Holds '\n' (Step.textsAll (methodSteps e)) ↔
      '\n' ∈ e.name.toList ∨ Holds '\n' (shownMessage e.method.docs) := by
  simp [methodSteps, DocComment.holds_steps, DocComment.holds_ofDocs, Step.texts,
    lf_mem_requestType, lf_mem_responseType, serviceResult, or_comm]

theorem holds_serviceSteps (api : Api) :
    Holds '\n' (Step.textsAll (serviceSteps api)) ↔
      '\n' ∈ api.service.name.toList ∨ Holds '\n' (shownMessage api.service.docs) ∨
        ∃ e ∈ api.endpoints, '\n' ∈ e.name.toList ∨ Holds '\n' (shownMessage e.method.docs) := by
  simp [serviceSteps, Api.interface, DocComment.holds_steps, DocComment.holds_ofDocs, Step.texts,
    Step.braces, holds_methodSteps, or_left_comm]

theorem holds_endpointSteps (e : Endpoint) :
    Holds '\n' (Step.textsAll (endpointSteps e)) ↔
      '\n' ∈ e.name.toList ∨
        Holds '\n' ((e.method.requestFields ++ e.method.responseFields).flatMap fieldTexts) := by
  simp only [endpointSteps, Step.textsAll_append, Step.textsAll_cons, Step.texts, List.nil_append,
    holds_append, List.flatMap_append, holds_recordSteps, DocComment.ofText, lf_mem_requestType,
    lf_mem_responseType, DocComment.not_holds_textLines, false_or]
  exact or_or_distrib_left.symm

theorem holds_dtoSteps (d : Service.Dto) :
    Holds '\n' (Step.textsAll (dtoSteps d)) ↔ Holds '\n' (dtoTexts d) := by
  simp [dtoSteps, dtoTexts, dtoInterface, holds_recordSteps, DocComment.holds_ofDocs, Step.texts]

theorem holds_enumSteps (e : Service.EnumType) :
    Holds '\n' (Step.textsAll (enumSteps e)) ↔ Holds '\n' (enumTexts e) := by
  simp [enumSteps, enumValueSteps, enumTexts, DocComment.holds_steps, DocComment.holds_ofDocs,
    Step.texts, Step.braces, or_left_comm]

/-- An endpoint has its name and its message in the interface of the service, and its name and its
fields in the interfaces of its own. -/
theorem exists_endpointTexts (es : List Endpoint) :
    (∃ e ∈ es, Holds '\n' (endpointTexts e)) ↔
      (∃ e ∈ es, '\n' ∈ e.name.toList ∨ Holds '\n' (shownMessage e.method.docs)) ∨
        ∃ e ∈ es, Holds '\n' (Step.textsAll (endpointSteps e)) := by
  simp only [← exists_or, ← and_or_left, endpointTexts, holds_endpointSteps, holds_append,
    holds_cons]
  refine exists_congr fun e => and_congr_right fun _ => ?_
  tauto

theorem holds_emit (api : Api) (options : Options) :
    Holds '\n' (Step.textsAll (emit api options).code) ↔ Holds '\n' (rawTexts api) := by
  simp only [emit, rawTexts, Step.textsAll_append, Step.textsAll_flatMap, holds_append, holds_cons,
    holds_flatMap, holds_serviceSteps, exists_endpointTexts, holds_dtoSteps, holds_enumSteps,
    or_assoc]

/-- The declared names are among the texts that the declarations hold. -/
theorem holds_of_declarations {api : Api} (h : Holds '\n' ((declarations api).map (·.name))) :
    Holds '\n' (rawTexts api) := by
  simp only [declarations, rawTexts, List.map_append, List.map_cons, List.map_flatMap,
    List.map_map, List.map_nil, holds_append, holds_cons, holds_flatMap, holds_map, holds_nil,
    lf_mem_requestType, lf_mem_responseType, or_false, or_self, Function.comp_apply] at h ⊢
  rcases h with ((h | ⟨e, he, h⟩) | ⟨d, hd, h⟩) | ⟨e, he, h⟩
  · exact .inl (.inl (.inl (.inl (by simpa [Api.interface] using h))))
  · exact .inl (.inl (.inr ⟨e, he, by simp [endpointTexts, h]⟩))
  · have hname : '\n' ∈ d.name.toList := by simpa [dtoInterface] using h
    exact .inl (.inr ⟨d, hd, by simp [dtoTexts, hname]⟩)
  · exact .inr ⟨e, he, by simp [enumTexts, h]⟩

end Types

/-! ## Values carried as text -/

/-- The names that the casts of some slots hold. -/
def castNames (dialect : Dialect) (slots : List Slot) : List String :=
  if dialect.isTyped then enumNames slots else []

@[simp] theorem lf_mem_toUri {k : Api.Scalar} {value : String} :
    '\n' ∈ (k.toUri value).toList ↔ '\n' ∈ value.toList := by
  unfold Api.Scalar.toUri
  cases k <;> simp

@[simp] theorem lf_mem_toHeader {k : Api.Scalar} {value : String} :
    '\n' ∈ (k.toHeader value).toList ↔ '\n' ∈ value.toList := by
  unfold Api.Scalar.toHeader
  cases k <;> simp

theorem lf_mem_ofText {s : Slot} {dialect : Dialect} {text : String} (h : '\n' ∉ text.toList) :
    '\n' ∈ (s.kind.ofText dialect text).toList ↔ Holds '\n' (castNames dialect [s]) := by
  unfold Api.Scalar.ofText castNames enumNames Dialect.onlyTyped
  cases dialect <;> cases hkind : s.kind <;>
    simp [hkind, h, Dialect.isTyped, Api.Scalar.enumName?]

theorem holds_castNames {dialect : Dialect} {slots : List Slot} :
    Holds '\n' (castNames dialect slots) ↔ ∃ s ∈ slots, Holds '\n' (castNames dialect [s]) := by
  unfold castNames enumNames
  cases dialect
  · simp only [Dialect.isTyped, if_true]
    constructor
    · rintro ⟨name, hname, hlf⟩
      obtain ⟨s, hs, hkind⟩ := List.mem_filterMap.1 hname
      exact ⟨s, hs, name, by simp [hkind], hlf⟩
    · rintro ⟨s, hs, name, hname, hlf⟩
      obtain ⟨s', hs', hkind⟩ := List.mem_filterMap.1 hname
      rw [List.mem_singleton] at hs'
      exact ⟨name, List.mem_filterMap.2 ⟨s, hs, hs' ▸ hkind⟩, hlf⟩
  · simp [Dialect.isTyped]

/-! ## The client -/

namespace Client

/-- The fixed parts of a path that is written as a template. -/
def templateTexts (path : List PathPart) : List String :=
  if path.any isCapture then path.map fixedText else []

theorem mem_dropWhile_iff {p : Char → Bool} {c : Char} (hc : p c = false) {cs : List Char} :
    c ∈ cs.dropWhile p ↔ c ∈ cs := by
  induction cs with
  | nil => simp
  | cons d cs ih =>
    rw [List.dropWhile_cons]
    split_ifs with hd
    · have hne : c ≠ d := fun heq => by simp_all
      simp [ih, hne]
    · rfl

theorem holds_relativeParts (path : List PathPart) :
    Holds '\n' ((relativeParts path).map fixedText) ↔ Holds '\n' (path.map fixedText) := by
  unfold relativeParts
  split
  · simp [fixedText, mem_dropWhile_iff]
  · rfl

theorem any_isCapture_relativeParts (path : List PathPart) :
    (relativeParts path).any isCapture = path.any isCapture := by
  unfold relativeParts
  split <;> simp [isCapture]

theorem lf_mem_templatePart (part : PathPart) :
    '\n' ∈ (templatePart part).toList ↔ '\n' ∈ (fixedText part).toList := by
  cases part <;> simp [templatePart, fixedText, uriVariable]

theorem lf_mem_uriExpression (path : List PathPart) :
    '\n' ∈ (uriExpression path).toList ↔ Holds '\n' (templateTexts path) := by
  unfold uriExpression templateTexts
  simp only [any_isCapture_relativeParts]
  split_ifs
  · rw [← holds_relativeParts]
    simp [holds_map, lf_mem_templatePart]
  · simp

/-- The texts that the method of an endpoint holds as they are. -/
def endpointTexts (dialect : Dialect) (e : Endpoint) : List String :=
  e.name :: shownMessage e.method.docs ++ templateTexts e.path ++ castNames dialect (readHeaders e)

/-- The texts that the client holds as they are. -/
def rawTexts (api : Api) (dialect : Dialect) : List String :=
  api.service.name :: shownMessage api.service.docs ++
    api.endpoints.flatMap (endpointTexts dialect)

theorem holds_factory (api : Api) (dialect : Dialect) :
    Holds '\n' (Step.textsAll (factory api dialect)) ↔
      '\n' ∈ api.service.name.toList ∨ Holds '\n' (shownMessage api.service.docs) := by
  by_cases hname : '\n' ∈ api.service.name.toList
  · simp [factory, Step.texts, Step.braces, Api.clientClass, hname]
  · cases dialect <;>
      simp [factory, Step.texts, Step.braces, Api.clientClass, Api.interface, optionsType,
        Dialect.onlyTyped, Dialect.isTyped, DocComment.holds_steps, DocComment.holds_ofDocsOr,
        hname]

theorem not_holds_utilityBindings (api : Api) (dialect : Dialect) :
    ¬Holds '\n' (Step.textsAll (utilityBindings api dialect)) := by
  unfold utilityBindings utilityFunctions
  cases dialect <;> split_ifs <;> simp_all [Step.texts, utility, Dialect.isTyped]

theorem not_holds_constructorSteps (api : Api) (dialect : Dialect) :
    ¬Holds '\n' (Step.textsAll (constructorSteps api dialect)) := by
  cases dialect <;>
    simp [constructorSteps, Step.texts, Step.braces, Dialect.onlyTyped, Dialect.isTyped]

theorem not_holds_pathGuard (s : Slot) : ¬Holds '\n' (Step.textsAll (pathGuard s)) := by
  simp [pathGuard, requiredError, Step.texts, Step.braces, uriVariable, requestField]

theorem not_holds_bodyGuard (e : Endpoint) : ¬Holds '\n' (Step.textsAll (bodyGuard e)) := by
  unfold bodyGuard
  split <;> simp [requiredError, Step.texts, Step.braces, requestField]

theorem holds_uriSteps (e : Endpoint) (dialect : Dialect) :
    Holds '\n' (Step.textsAll (uriSteps e dialect)) ↔ Holds '\n' (templateTexts e.path) := by
  unfold uriSteps
  split_ifs
  · simp [Step.texts, lf_mem_uriExpression]
  · cases dialect <;>
      simp [Step.texts, Step.braces, queryStep, requestField, lf_mem_uriExpression,
        Dialect.onlyTyped, Dialect.isTyped]

theorem not_holds_bodySteps (e : Endpoint) : ¬Holds '\n' (Step.textsAll (bodySteps e)) := by
  have hbody : ∀ body, bodyExpression? e.requestBody = some body → '\n' ∉ body.toList := by
    unfold bodyExpression?
    cases e.requestBody <;> simp [requestField, copiedEntry, holds_map]
  unfold bodySteps
  split
  next body heq => simp [Step.texts, hbody body heq]
  next => split_ifs <;> simp [Step.texts]

theorem not_holds_requestSteps (e : Endpoint) (dialect : Dialect) :
    ¬Holds '\n' (Step.textsAll (requestSteps e dialect)) := by
  have hbody := not_holds_bodySteps e
  cases dialect <;>
    simp [requestSteps, headerStep, requestField, Step.texts, Step.braces, Dialect.onlyTyped,
      Dialect.isTyped, hbody]

section

-- A method writes the endpoint's name in its head, so the rest matters only if that holds none.
variable {e : Endpoint} (hname : '\n' ∉ e.name.toList)

include hname

theorem not_holds_responseSteps (dialect : Dialect) (body : ResponseBody) :
    ¬Holds '\n' (Step.textsAll (responseSteps e dialect body)) := by
  cases dialect <;> cases body <;>
    simp [responseSteps, Step.texts, Step.braces, Dialect.onlyTyped, Dialect.isTyped,
      lf_mem_responseType, hname]

theorem not_holds_statusChain (dialect : Dialect) (rs : List Response) :
    ¬Holds '\n' (Step.textsAll (statusChain e dialect rs)) := by
  have htest : ∀ r : Response, '\n' ∉ (statusTest r).toList := by
    intro r
    delta statusTest
    simp
  cases rs with
  | nil => simp [statusChain]
  | cons r rs => simp [statusChain, Step.texts, htest, not_holds_responseSteps hname]

omit hname in
theorem holds_overlaySteps (dialect : Dialect) :
    Holds '\n' (Step.textsAll (overlaySteps e dialect)) ↔
      Holds '\n' (castNames dialect (readHeaders e)) := by
  unfold overlaySteps
  split_ifs with hempty
  · rw [List.isEmpty_iff.1 hempty]
    simp [castNames, enumNames]
  · rw [holds_castNames]
    cases dialect <;>
      simp [responseHeaderSteps, Step.texts, Step.braces, Dialect.onlyTyped, Dialect.isTyped,
        lf_mem_ofText]

theorem holds_dispatch (dialect : Dialect) :
    Holds '\n' (Step.textsAll (dispatch e dialect)) ↔
      Holds '\n' (castNames dialect (readHeaders e)) := by
  have hchain := not_holds_statusChain hname dialect e.responses
  rw [← holds_overlaySteps]
  cases dialect <;>
    simp [dispatch, Step.texts, Step.braces, Dialect.onlyTyped, Dialect.isTyped, serviceResult,
      lf_mem_responseType, hchain, hname]

end

theorem lf_mem_methodHead {e : Endpoint} {dialect : Dialect} :
    '\n' ∈ (methodHead e dialect).toList ↔ '\n' ∈ e.name.toList := by
  cases dialect <;>
    simp [methodHead, Dialect.onlyTyped, Dialect.isTyped, serviceResult, lf_mem_requestType,
      lf_mem_responseType]

theorem holds_methodSteps (dialect : Dialect) (e : Endpoint) :
    Holds '\n' (Step.textsAll (methodSteps dialect e)) ↔
      Holds '\n' (endpointTexts dialect e) := by
  by_cases hname : '\n' ∈ e.name.toList
  · simp [methodSteps, endpointTexts, Step.texts, Step.braces, lf_mem_methodHead, hname]
  · simp [methodSteps, endpointTexts, Step.texts, Step.braces, DocComment.holds_steps,
      DocComment.holds_ofDocs, lf_mem_methodHead, not_holds_pathGuard, not_holds_bodyGuard,
      holds_uriSteps, not_holds_requestSteps, holds_dispatch hname, hname]

theorem holds_classSteps (api : Api) (dialect : Dialect) :
    Holds '\n' (Step.textsAll (classSteps api dialect)) ↔
      '\n' ∈ api.service.name.toList ∨
        Holds '\n' (api.endpoints.flatMap (endpointTexts dialect)) := by
  have hctor := not_holds_constructorSteps api dialect
  cases dialect <;>
    simp [classSteps, Api.clientClass, Api.interface, Step.texts, Step.braces, Dialect.onlyTyped,
      Dialect.isTyped, holds_methodSteps, hctor]

theorem holds_emit (api : Api) (options : Options) :
    Holds '\n' (Step.textsAll (emit api options).code) ↔
      Holds '\n' (rawTexts api options.dialect) := by
  have hutility := not_holds_utilityBindings api options.dialect
  simp only [emit, rawTexts, Step.textsAll_append, Step.textsAll_cons, Step.textsAll_nil,
    Step.texts, holds_append, holds_cons, holds_nil, holds_factory, holds_classSteps, hutility,
    or_false]
  rw [← or_or_distrib_left, or_assoc]

theorem holds_of_localTypes {api : Api} {options : Options} (typed : options.dialect.isTyped)
    (h : Holds '\n' (emit api options).localTypes) : Holds '\n' (rawTexts api options.dialect) := by
  simp only [emit, rawTexts, endpointTexts, castNames, typed, if_true, holds_append, holds_cons,
    holds_flatMap, lf_mem_requestType, lf_mem_responseType] at h ⊢
  rcases h with h | ⟨e, he, h⟩
  · exact .inl (.inl (by simpa [Api.interface] using h))
  · exact .inr ⟨e, he, by tauto⟩

end Client

/-! ## The server -/

namespace Server

/-- The texts that the route of an endpoint holds as they are. -/
def endpointTexts (dialect : Dialect) (e : Endpoint) : List String :=
  e.name :: shownMessage e.method.docs ++ castNames dialect (readSlots e)

/-- The texts that the server holds as they are. -/
def rawTexts (api : Api) (dialect : Dialect) : List String :=
  (if dialect.isTyped then [api.service.name] else []) ++
    api.endpoints.flatMap (endpointTexts dialect)

theorem not_holds_errorTable (dialect : Dialect) :
    ¬Holds '\n' (Step.textsAll (errorTable dialect)) := by
  cases dialect <;>
    simp [errorTable, errorStatuses, Step.texts, Dialect.onlyTyped, Dialect.isTyped]

theorem holds_pathStep (dialect : Dialect) (s : Slot) :
    Holds '\n' (pathStep dialect s).texts ↔ Holds '\n' (castNames dialect [s]) := by
  simp [pathStep, requestField, Step.texts, lf_mem_ofText]

theorem holds_queryStep (dialect : Dialect) (s : Slot) :
    Holds '\n' (queryStep dialect s).texts ↔ Holds '\n' (castNames dialect [s]) := by
  simp [queryStep, requestField, Step.texts, Step.braces, lf_mem_ofText]

theorem holds_headerSteps (dialect : Dialect) (s : Slot) :
    Holds '\n' (Step.textsAll (headerSteps dialect s)) ↔ Holds '\n' (castNames dialect [s]) := by
  simp [headerSteps, requestField, Step.texts, Step.braces, lf_mem_ofText]

theorem not_holds_bodySteps (e : Endpoint) : ¬Holds '\n' (Step.textsAll (bodySteps e)) := by
  have hmembers : ∀ fields, ¬Holds '\n' (Step.textsAll (bodyMembers fields)) := by
    intro fields
    unfold bodyMembers
    split_ifs <;> simp [requestField, Step.texts, Step.braces]
  unfold bodySteps
  cases e.requestBody <;> simp [hmembers, requestField, Step.texts]

section

-- A route calls the service by the endpoint's name, so the rest matters only if that holds none.
variable {e : Endpoint} (hname : '\n' ∉ e.name.toList)

include hname

theorem holds_requestSteps (dialect : Dialect) :
    Holds '\n' (Step.textsAll (requestSteps e dialect)) ↔
      Holds '\n' (castNames dialect (readSlots e)) := by
  have hbody := not_holds_bodySteps e
  have hheaders : Holds '\n' (Step.textsAll
      (if e.requestHeaderFields.isEmpty then []
        else .line ("let headerValue" ++ dialect.onlyTyped ": string | undefined" ++ ";") ::
          e.requestHeaderFields.flatMap (headerSteps dialect))) ↔
      ∃ s ∈ e.requestHeaderFields, Holds '\n' (castNames dialect [s]) := by
    split_ifs with hempty
    · simp [List.isEmpty_iff.1 hempty]
    · cases dialect <;>
        simp [holds_headerSteps, Step.texts, Dialect.onlyTyped, Dialect.isTyped]
  have hhead : ¬Holds '\n' (Step.texts
      (.line ("const request" ++ dialect.onlyTyped (": " ++ e.requestType) ++ " = \x7b\x7d;"))) := by
    cases dialect <;>
      simp [Step.texts, Dialect.onlyTyped, Dialect.isTyped, lf_mem_requestType, hname]
  rw [holds_castNames]
  simp only [requestSteps, readSlots, Step.textsAll_append, Step.textsAll_cons, Step.textsAll_map,
    holds_append, holds_flatMap, holds_pathStep, holds_queryStep, hheaders, hhead, hbody,
    List.mem_append, or_and_right, exists_or, false_or, or_false]

theorem not_holds_invokeSteps : ¬Holds '\n' (Step.textsAll (invokeSteps e)) := by
  have hresponse : ∀ r, ¬Holds '\n' (Step.textsAll (responseSteps r)) := by
    intro r
    unfold responseSteps
    cases r.body <;> simp [resultField, Step.texts, Step.braces, holds_map]
  simp [invokeSteps, errorSteps, responseHeaderStep, resultField, Step.texts, Step.braces,
    hresponse, hname]

end

theorem holds_routeSteps (dialect : Dialect) (e : Endpoint) :
    Holds '\n' (Step.textsAll (routeSteps dialect e)) ↔
      Holds '\n' (endpointTexts dialect e) := by
  have hverb : '\n' ∉ e.verb.route.toList := by cases e.verb <;> simp [Service.Verb.route]
  by_cases hname : '\n' ∈ e.name.toList
  · simp [routeSteps, invokeSteps, endpointTexts, Step.texts, hname]
  · simp [routeSteps, endpointTexts, Step.texts, DocComment.holds_steps, DocComment.holds_ofDocs,
      holds_requestSteps hname, not_holds_invokeSteps hname, hverb, hname]

theorem holds_emit (api : Api) (options : Options) :
    Holds '\n' (Step.textsAll (emit api options).code) ↔
      Holds '\n' (rawTexts api options.dialect) := by
  have htable := not_holds_errorTable options.dialect
  simp only [emit, rawTexts]
  cases hdialect : options.dialect <;>
    simp_all [appSteps, Step.texts, Step.braces, DocComment.holds_steps, DocComment.ofText,
      DocComment.not_holds_textLines, holds_routeSteps, Dialect.onlyTyped, Dialect.isTyped,
      Api.interface]

theorem holds_of_localTypes {api : Api} {options : Options} (typed : options.dialect.isTyped)
    (h : Holds '\n' (emit api options).localTypes) : Holds '\n' (rawTexts api options.dialect) := by
  simp only [emit, rawTexts, endpointTexts, castNames, typed, if_true, holds_append, holds_cons,
    holds_flatMap, lf_mem_requestType] at h ⊢
  rcases h with h | ⟨e, he, h⟩
  · exact .inl (.inl (by simpa [Api.interface] using h))
  · exact .inr ⟨e, he, by tauto⟩

end Server

end Stub

end HttpStubs

import HttpStubs.Proofs.ArtifactLayout
import HttpStubs.Proofs.LiteralReading

/-!
# Calls of helpers

Two kinds of line in the emitted code call a helper: a line that assigns a property what the boolean
reader makes of a text (`ParsesBoolean`), and a line that answers that a field is missing
(`RefusesRequest`). Which methods and routes have such lines follows from the fields of the
endpoint. All other lines are told apart by how they start or end.
-/

namespace HttpStubs

/-! ## Reading property accesses -/

namespace Code

/-- What follows the property access at the start of a text. -/
def afterAccess? (cs : List Char) : Option (List Char) :=
  match cs.dropWhile isNameChar with
  | '.' :: cs => some (cs.dropWhile isNameChar)
  | '[' :: cs => (readLiteral cs).bind fun (_, rest) => rest.tail?
  | _ => none

theorem afterAccess?_propertyAccess {object : String} (hobject : object.toList.all isNameChar)
    (name : String) {rest : List Char} (hrest : ∀ c ∈ rest.head?, isNameChar c = false) :
    afterAccess? ((propertyAccess object name).toList ++ rest) = some rest := by
  have hcut : ∀ c cs, isNameChar c = false →
      (object.toList ++ c :: cs).dropWhile isNameChar = c :: cs := by
    intro c cs hc
    apply dropWhile_name_append hobject
    rintro c' hc'
    obtain rfl := Option.mem_some_iff.1 hc'
    exact hc
  unfold afterAccess? propertyAccess
  split_ifs with hbare
  · have hchars : (object ++ "." ++ name).toList ++ rest =
        object.toList ++ '.' :: (name.toList ++ rest) := by simp
    rw [hchars, hcut _ _ (by decide)]
    simp only [dropWhile_name_append (all_isNameChar_of_isBareName hbare) hrest]
  · have hchars : (object ++ "[" ++ literal name ++ "]").toList ++ rest =
        object.toList ++ '[' :: ((literal name).toList ++ ']' :: rest) := by simp
    rw [hchars, hcut _ _ (by decide)]
    simp only [readLiteral_literal]
    rfl

/-- What follows a property access does not depend on how it is read. -/
theorem propertyAccess_append_inj {object object' name name' rest rest' : String}
    (hobject : object.toList.all isNameChar) (hobject' : object'.toList.all isNameChar)
    (hrest : ∀ c ∈ rest.toList.head?, isNameChar c = false)
    (hrest' : ∀ c ∈ rest'.toList.head?, isNameChar c = false)
    (h : propertyAccess object name ++ rest = propertyAccess object' name' ++ rest') :
    rest = rest' := by
  have hread := afterAccess?_propertyAccess hobject name hrest
  have hread' := afterAccess?_propertyAccess hobject' name' hrest'
  rw [← String.toList_append, h, String.toList_append, hread'] at hread
  exact (String.toList_inj.1 (Option.some.inj hread)).symm

end Code

namespace Stub

open Code
open Api (Endpoint Scalar Slot)

/-! ## Lines that call helpers -/

/-- A line that assigns a field of the request or of the value what the boolean reader returns. -/
def ParsesBoolean (line : String) : Prop :=
  ∃ object ∈ ["request", "value"], ∃ name text,
    line = propertyAccess object name ++ " = parseBoolean(" ++ text ++ ");"

/-- A line that answers that a field of the request is missing. -/
def RefusesRequest (line : String) : Prop :=
  ∃ name, line =
    "return Promise.resolve(createRequiredRequestFieldError(" ++ literal name ++ "));"

/-- A line that calls one of the two helpers. -/
def CallsHelper (line : String) : Prop :=
  ParsesBoolean line ∨ RefusesRequest line

/-- Some of the texts is such a line. -/
def Emits (P : String → Prop) (texts : List String) : Prop :=
  ∃ line ∈ texts, P line

section

variable {P : String → Prop}

@[simp] theorem emits_nil : ¬Emits P [] := by
  simp [Emits]

@[simp] theorem emits_cons {line : String} {texts : List String} :
    Emits P (line :: texts) ↔ P line ∨ Emits P texts := by
  simp [Emits]

@[simp] theorem emits_append {texts more : List String} :
    Emits P (texts ++ more) ↔ Emits P texts ∨ Emits P more := by
  simp [Emits, or_and_right, exists_or]

@[simp] theorem emits_flatMap {α : Type} {xs : List α} {f : α → List String} :
    Emits P (xs.flatMap f) ↔ ∃ x ∈ xs, Emits P (f x) := by
  simp only [Emits, List.mem_flatMap]
  constructor
  · rintro ⟨line, ⟨x, hx, hline⟩, h⟩
    exact ⟨x, hx, line, hline, h⟩
  · rintro ⟨x, hx, line, hline, h⟩
    exact ⟨line, ⟨x, hx, hline⟩, h⟩

theorem Emits.mono {Q : String → Prop} {texts : List String} (h : Emits P texts)
    (himp : ∀ line, P line → Q line) : Emits Q texts :=
  h.imp fun _ hline => ⟨hline.1, himp _ hline.2⟩

end

/-- A line starts as the lines that call a helper do. -/
def MayCall (cs : List Char) : Prop :=
  ∃ start ∈ ["request.", "request[", "value.", "value[", "return P"], start.toList <+: cs

theorem mayCall_of_callsHelper {line : String} (h : CallsHelper line) :
    MayCall line.toList := by
  rcases h with ⟨object, hobject, name, text, rfl⟩ | ⟨name, rfl⟩
  · unfold propertyAccess
    rcases List.mem_pair.1 hobject with rfl | rfl <;> split_ifs <;> simp [MayCall]
  · simp [MayCall]

theorem getLast?_of_callsHelper {line : String} (h : CallsHelper line) :
    line.toList.getLast? = some ';' := by
  rcases h with ⟨object, -, name, text, rfl⟩ | ⟨name, rfl⟩
  all_goals
    rw [String.toList_append, List.getLast?_append]
    rfl

theorem not_callsHelper_of_start {line : String} (h : ¬MayCall line.toList) :
    ¬CallsHelper line :=
  fun hcalls => h (mayCall_of_callsHelper hcalls)

theorem not_of_start {P : String → Prop} (hP : ∀ line, P line → CallsHelper line) {line : String}
    (h : ¬MayCall line.toList) : ¬P line :=
  fun hline => not_callsHelper_of_start h (hP line hline)

theorem not_parsesBoolean_of_start {line : String} (h : ¬MayCall line.toList) :
    ¬ParsesBoolean line :=
  not_of_start (fun _ => .inl) h

theorem not_refusesRequest_of_start {line : String} (h : ¬MayCall line.toList) :
    ¬RefusesRequest line :=
  not_of_start (fun _ => .inr) h

theorem not_emits_of_silent {P : String → Prop} (hP : ∀ line, P line → CallsHelper line)
    {texts : List String} (h : ¬Emits CallsHelper texts) : ¬Emits P texts :=
  fun hemits => h (hemits.mono hP)

theorem not_callsHelper_of_last {line : String} (h : line.toList.getLast? ≠ some ';') :
    ¬CallsHelper line :=
  fun hcalls => h (getLast?_of_callsHelper hcalls)

@[simp] theorem not_emits_docComment (comment : DocComment) :
    ¬Emits CallsHelper (Step.textsAll comment.steps) := by
  obtain ⟨lines⟩ := comment
  match lines with
  | [] => exact emits_nil
  | [line] => simp [DocComment.steps, Step.texts, not_callsHelper_of_start, MayCall]
  | first :: second :: rest =>
    simp [DocComment.steps, Step.texts, not_callsHelper_of_start, MayCall]

/-! ## Assignments -/

/-- An assignment to a field of the request or of the value parses a boolean exactly if its right
side calls the boolean reader. -/
theorem parsesBoolean_assignment {object : String} (hobject : object ∈ ["request", "value"])
    (name value : String) :
    ParsesBoolean (propertyAccess object name ++ " = " ++ value ++ ";") ↔
      ∃ text, value = "parseBoolean(" ++ text ++ ")" := by
  have hall : ∀ object ∈ ["request", "value"], object.toList.all isNameChar := by decide
  have hsplit : ∀ front text : String, front ++ " = parseBoolean(" ++ text ++ ");" =
      front ++ (" = " ++ ("parseBoolean(" ++ text ++ ")" ++ ";")) := by
    intro front text
    simp [← String.toList_inj]
  constructor
  · rintro ⟨object', hobject', name', text, heq⟩
    rw [hsplit, String.append_assoc, String.append_assoc] at heq
    have hrest : " = " ++ (value ++ ";") = " = " ++ ("parseBoolean(" ++ text ++ ")" ++ ";") :=
      propertyAccess_append_inj (hall object hobject) (hall object' hobject')
        (by simp [isNameChar]) (by simp [isNameChar]) heq
    refine ⟨text, ?_⟩
    simpa using hrest
  · rintro ⟨text, rfl⟩
    refine ⟨object, hobject, name, text, ?_⟩
    rw [hsplit, String.append_assoc, String.append_assoc]

/-- Reading a value calls the boolean reader exactly if it is a boolean. -/
theorem ofText_eq_parseBoolean_iff (k : Scalar) (dialect : Dialect) {text : String}
    (htext : text.toList.head?.any (· ≠ 'p')) :
    (∃ t, k.ofText dialect text = "parseBoolean(" ++ t ++ ")") ↔ k = .boolean := by
  constructor
  · rintro ⟨t, heq⟩
    cases hchars : text.toList with
    | nil => simp [hchars] at htext
    | cons c cs =>
      have hc : c ≠ 'p' := by simpa [hchars] using htext
      have heq := congrArg String.toList heq
      cases k <;> simp [Scalar.ofText, hchars, hc] at heq ⊢
  · rintro rfl
    exact ⟨text, rfl⟩

theorem parsesBoolean_ofText {object : String} (hobject : object ∈ ["request", "value"])
    (s : Slot) (dialect : Dialect) {text : String} (htext : text.toList.head?.any (· ≠ 'p')) :
    ParsesBoolean (propertyAccess object s.name ++ " = " ++ s.kind.ofText dialect text ++ ";") ↔
      s.kind = .boolean := by
  rw [parsesBoolean_assignment hobject, ofText_eq_parseBoolean_iff _ _ htext]

/-! ## The client -/

namespace Client

theorem not_emits_factory (api : Api) (dialect : Dialect) :
    ¬Emits CallsHelper (Step.textsAll (factory api dialect)) := by
  simp [factory, Step.texts, Step.braces, not_callsHelper_of_start, MayCall]

theorem not_emits_utilityBindings (api : Api) (dialect : Dialect) :
    ¬Emits CallsHelper (Step.textsAll (utilityBindings api dialect)) := by
  unfold utilityBindings
  split_ifs <;> simp [Step.texts, not_callsHelper_of_start, MayCall]

theorem not_emits_constructorSteps (api : Api) (dialect : Dialect) :
    ¬Emits CallsHelper (Step.textsAll (constructorSteps api dialect)) := by
  simp [constructorSteps, Step.texts, Step.braces, not_callsHelper_of_start, MayCall]

theorem not_emits_requestSteps (e : Endpoint) (dialect : Dialect) :
    ¬Emits CallsHelper (Step.textsAll (requestSteps e dialect)) := by
  have hbody : ¬Emits CallsHelper (Step.textsAll (bodySteps e)) := by
    unfold bodySteps
    split
    · simp [Step.texts, not_callsHelper_of_start, MayCall]
    · split_ifs <;> simp [Step.texts, not_callsHelper_of_start, MayCall]
  simp [requestSteps, headerStep, hbody, Step.texts, Step.braces, not_callsHelper_of_start, MayCall]

theorem not_emits_responseSteps (e : Endpoint) (dialect : Dialect) (body : Api.ResponseBody) :
    ¬Emits CallsHelper (Step.textsAll (responseSteps e dialect body)) := by
  cases body <;>
    simp [responseSteps, Step.texts, Step.braces, not_callsHelper_of_start, MayCall]

theorem not_emits_statusChain (e : Endpoint) (dialect : Dialect) (rs : List Api.Response) :
    ¬Emits CallsHelper (Step.textsAll (statusChain e dialect rs)) := by
  have htest : ∀ r, ¬CallsHelper (statusTest r) := by
    intro r
    delta statusTest
    exact not_callsHelper_of_start (by simp [MayCall])
  cases rs with
  | nil => exact emits_nil
  | cons r rs =>
    simp [statusChain, htest, not_emits_responseSteps, Step.texts, not_callsHelper_of_start,
      MayCall]

theorem not_callsHelper_query (name rest : String) :
    ¬CallsHelper (requestField name ++ " == null || " ++ rest) := by
  rintro (⟨object, hobject, name', text, heq⟩ | ⟨name', heq⟩)
  · have hall : ∀ object ∈ ["request", "value"], object.toList.all isNameChar := by decide
    simp only [String.append_assoc] at heq
    have hrest := propertyAccess_append_inj (hall "request" (by simp)) (hall object hobject)
      (by simp [isNameChar]) (by simp [isNameChar]) heq
    simp [← String.toList_inj] at hrest
  · unfold requestField propertyAccess at heq
    split_ifs at heq <;> simp [← String.toList_inj] at heq

theorem not_emits_uriSteps (e : Endpoint) (dialect : Dialect) :
    ¬Emits CallsHelper (Step.textsAll (uriSteps e dialect)) := by
  have hquery : ∀ s, ¬Emits CallsHelper (queryStep s).texts := by
    intro s
    have hline : requestField s.name ++ " == null || query.push(" =
      requestField s.name ++ " == null || " ++ "query.push(" := by simp [← String.toList_inj]
    simp only [queryStep, Step.texts, hline, String.append_assoc]
    simpa [String.append_assoc] using not_callsHelper_query s.name _
  unfold uriSteps
  split_ifs
  · simp [Step.texts, not_callsHelper_of_start, MayCall]
  · simp [hquery, Step.texts, Step.braces, not_callsHelper_of_start, MayCall]

/-- The lines of a method that may call a helper: those of the guards, and those that take over the
response headers. -/
theorem emits_methodSteps {P : String → Prop} (hP : ∀ line, P line → CallsHelper line)
    (dialect : Dialect) (e : Endpoint) :
    Emits P (Step.textsAll (methodSteps dialect e)) ↔
      Emits P (Step.textsAll (e.pathFields.flatMap pathGuard ++ bodyGuard e)) ∨
        Emits P (Step.textsAll ((readHeaders e).flatMap (responseHeaderSteps dialect))) := by
  have hhead : ¬P (methodHead e dialect ++ " \x7b") := fun hline =>
    not_callsHelper_of_last (by simp) (hP _ hline)
  have hoverlay : Emits P (Step.textsAll (overlaySteps e dialect)) ↔
      Emits P (Step.textsAll ((readHeaders e).flatMap (responseHeaderSteps dialect))) := by
    unfold overlaySteps
    split_ifs with hempty
    · simp [List.isEmpty_iff.1 hempty]
    · simp [Step.texts, not_of_start hP, MayCall]
  have hdispatch : Emits P (Step.textsAll (dispatch e dialect)) ↔
      Emits P (Step.textsAll (overlaySteps e dialect)) := by
    simp [dispatch, Step.texts, Step.braces, not_of_start hP, MayCall,
      not_emits_of_silent hP (not_emits_statusChain e dialect _)]
  simp [methodSteps, Step.texts, Step.braces, hhead, hdispatch, hoverlay, not_of_start hP, MayCall,
    not_emits_of_silent hP (not_emits_docComment _),
    not_emits_of_silent hP (not_emits_uriSteps e dialect),
    not_emits_of_silent hP (not_emits_requestSteps e dialect), or_assoc]

theorem emits_emit {P : String → Prop} (hP : ∀ line, P line → CallsHelper line) (api : Api)
    (options : Options) :
    Emits P (Step.textsAll (emit api options).code) ↔
      ∃ e ∈ api.endpoints, Emits P (Step.textsAll (methodSteps options.dialect e)) := by
  have hfields : ¬Emits P (Step.textsAll (if options.dialect.isTyped then
      [.blank, .line "private _fetch: IFetch;", .line "private _baseUri: string;"] else [])) := by
    split_ifs <;> simp [Step.texts, not_of_start hP, MayCall]
  simp [emit, classSteps, Step.texts, Step.braces, not_of_start hP, MayCall, hfields,
    not_emits_of_silent hP (not_emits_factory api _),
    not_emits_of_silent hP (not_emits_utilityBindings api _),
    not_emits_of_silent hP (not_emits_constructorSteps api _)]

/-- A method parses a boolean exactly if it takes over a boolean response header. -/
theorem emits_parsesBoolean (dialect : Dialect) (e : Endpoint) :
    Emits ParsesBoolean (Step.textsAll (methodSteps dialect e)) ↔
      ∃ s ∈ readHeaders e, s.kind = .boolean := by
  have hrefusal : ∀ name, ¬ParsesBoolean
      ("return Promise.resolve(createRequiredRequestFieldError(" ++ literal name ++ "));") := by
    rintro name ⟨object, hobject, name', text, heq⟩
    unfold propertyAccess at heq
    rcases List.mem_pair.1 hobject with rfl | rfl <;> split_ifs at heq <;>
      simp [← String.toList_inj] at heq
  have hpath : ∀ s, ¬Emits ParsesBoolean (Step.textsAll (pathGuard s)) := by
    simp [pathGuard, requiredError, hrefusal, Step.texts, Step.braces, not_parsesBoolean_of_start,
      MayCall]
  have hbody : ¬Emits ParsesBoolean (Step.textsAll (bodyGuard e)) := by
    unfold bodyGuard
    split <;> simp [requiredError, hrefusal, Step.texts, Step.braces, not_parsesBoolean_of_start,
      MayCall]
  rw [emits_methodSteps fun _ => .inl]
  simp [hpath, hbody, responseHeaderSteps, Step.texts, Step.braces, not_parsesBoolean_of_start,
    MayCall, parsesBoolean_ofText]

/-- A method refuses requests exactly if it has a path field or a required body field. -/
theorem emits_refusesRequest (dialect : Dialect) (e : Endpoint) :
    Emits RefusesRequest (Step.textsAll (methodSteps dialect e)) ↔
      e.pathFields ≠ [] ∨ ∃ f, e.requestBody = .field f ∧ f.required := by
  have haccess : ∀ name rest, ¬RefusesRequest (propertyAccess "value" name ++ rest) := by
    rintro name rest ⟨name', heq⟩
    unfold propertyAccess at heq
    split_ifs at heq <;> simp [← String.toList_inj] at heq
  have hheader : ∀ s, ¬Emits RefusesRequest (Step.textsAll (responseHeaderSteps dialect s)) := by
    simp [responseHeaderSteps, Step.texts, Step.braces, not_refusesRequest_of_start, MayCall,
      haccess, String.append_assoc]
  have hrefusal : ∀ name, RefusesRequest
      ("return Promise.resolve(createRequiredRequestFieldError(" ++ literal name ++ "));") :=
    fun name => ⟨name, rfl⟩
  have hpath : ∀ s, Emits RefusesRequest (Step.textsAll (pathGuard s)) := by
    simp [pathGuard, requiredError, hrefusal, Step.texts, Step.braces]
  have hbody : Emits RefusesRequest (Step.textsAll (bodyGuard e)) ↔
      ∃ f, e.requestBody = .field f ∧ f.required := by
    unfold bodyGuard requiredBodyField?
    cases e.requestBody with
    | field f =>
      cases hrequired : f.required <;>
        simp [hrequired, requiredError, hrefusal, Step.texts, Step.braces]
    | _ => simp
  rw [emits_methodSteps fun _ => .inr]
  simp [hpath, hbody, hheader, List.eq_nil_iff_forall_not_mem]

end Client

/-! ## The server -/

namespace Server

theorem not_emits_invokeSteps (e : Endpoint) :
    ¬Emits CallsHelper (Step.textsAll (invokeSteps e)) := by
  have hresponse : ∀ r, ¬Emits CallsHelper (Step.textsAll (responseSteps r)) := by
    intro r
    unfold responseSteps
    cases r.body <;> simp [Step.texts, Step.braces, not_callsHelper_of_start, MayCall]
  simp [invokeSteps, errorSteps, responseHeaderStep, hresponse, Step.texts, Step.braces,
    not_callsHelper_of_start, MayCall]

theorem not_emits_bodySteps (e : Endpoint) :
    ¬Emits ParsesBoolean (Step.textsAll (bodySteps e)) := by
  have hvalue : ∀ name value, value.toList.head? = some 'r' →
      ¬ParsesBoolean (requestField name ++ " = " ++ value ++ ";") := by
    intro name value hhead hline
    obtain ⟨text, rfl⟩ := (parsesBoolean_assignment (by simp) name value).1 hline
    simp at hhead
  have hmember : ∀ name, (propertyAccess "req.body" name).toList.head? = some 'r' := by
    intro name
    unfold propertyAccess
    split_ifs <;> simp
  have hmembers : ∀ fields, ¬Emits ParsesBoolean (Step.textsAll (bodyMembers fields)) := by
    intro fields
    unfold bodyMembers
    split_ifs
    · exact emits_nil
    · simp [Step.texts, Step.braces, not_parsesBoolean_of_start, MayCall, hvalue, hmember]
  unfold bodySteps
  cases e.requestBody with
  | none => exact emits_nil
  | field f =>
    have hline : requestField f.name ++ " = req.body;" =
        requestField f.name ++ " = " ++ "req.body" ++ ";" := by
      simp [← String.toList_inj]
    simpa [Step.texts, hline] using hvalue f.name "req.body" (by simp)
  | wholeRequest => exact hmembers _
  | normal fields => exact hmembers fields

/-- Reading the request parses a boolean exactly if one comes from path, query or header. -/
theorem emits_requestSteps (dialect : Dialect) (e : Endpoint) :
    Emits ParsesBoolean (Step.textsAll (requestSteps e dialect)) ↔
      ∃ s ∈ readSlots e, s.kind = .boolean := by
  have hpath : ∀ s, Emits ParsesBoolean (pathStep dialect s).texts ↔ s.kind = .boolean := by
    intro s
    have hhead : (propertyAccess "req.params" s.wire).toList.head?.any (· ≠ 'p') := by
      unfold propertyAccess
      split_ifs <;> simp
    have hrequest : "request" ∈ ["request", "value"] := List.mem_cons_self
    simpa [pathStep, requestField, Step.texts] using
      parsesBoolean_ofText hrequest s dialect hhead
  have hquery : ∀ s, Emits ParsesBoolean (queryStep dialect s).texts ↔ s.kind = .boolean := by
    simp [queryStep, requestField, Step.texts, Step.braces, not_parsesBoolean_of_start, MayCall,
      parsesBoolean_ofText]
  have hheader : ∀ s, Emits ParsesBoolean (Step.textsAll (headerSteps dialect s)) ↔
      s.kind = .boolean := by
    simp [headerSteps, requestField, Step.texts, Step.braces, not_parsesBoolean_of_start, MayCall,
      parsesBoolean_ofText]
  unfold requestSteps readSlots
  split_ifs with hempty
  all_goals
    simp [hpath, hquery, hheader, not_emits_bodySteps, Step.texts, not_parsesBoolean_of_start,
      MayCall, or_and_right, exists_or]
  simp [List.isEmpty_iff.1 hempty]

/-- A route parses a boolean exactly if reading its request does. -/
theorem emits_parsesBoolean (dialect : Dialect) (e : Endpoint) :
    Emits ParsesBoolean (Step.textsAll (routeSteps dialect e)) ↔
      ∃ s ∈ readSlots e, s.kind = .boolean := by
  rw [← emits_requestSteps dialect e]
  simp [routeSteps, Step.texts, not_parsesBoolean_of_start, MayCall,
    not_emits_of_silent (fun _ => .inl) (not_emits_docComment _),
    not_emits_of_silent (fun _ => .inl) (not_emits_invokeSteps e)]

/-- The server parses a boolean exactly if one of its routes does. -/
theorem emits_emit (api : Api) (options : Options) :
    Emits ParsesBoolean (Step.textsAll (emit api options).code) ↔
      ∃ e ∈ api.endpoints, Emits ParsesBoolean (Step.textsAll (routeSteps options.dialect e)) := by
  simp [emit, errorTable, errorStatuses, appSteps, Step.texts, Step.braces,
    not_parsesBoolean_of_start, MayCall,
    not_emits_of_silent (fun _ => .inl) (not_emits_docComment _)]

end Server

/-! ## The type declarations -/

namespace Types

/-- A field is told apart from a property access by what follows its name. -/
theorem not_parsesBoolean_field (name rest : String) :
    ¬ParsesBoolean (propertyKey name ++ "?: " ++ rest) := by
  have hkey : afterAccess? (propertyKey name ++ "?: " ++ rest).toList = none := by
    unfold afterAccess? propertyKey
    split_ifs with hbare
    · rw [String.toList_append, String.toList_append, List.append_assoc,
        dropWhile_name_append (all_isNameChar_of_isBareName hbare) (by simp [isNameChar])]
      simp
    · simp [literal, isNameChar]
  rintro ⟨object, hobject, name', text, heq⟩
  have hall : ∀ object ∈ ["request", "value"], object.toList.all isNameChar := by decide
  rw [heq, String.append_assoc, String.append_assoc, String.toList_append,
    afterAccess?_propertyAccess (hall object hobject) _ (by simp [isNameChar])] at hkey
  cases hkey

/-- A signature is told apart from a call by the angle bracket at its end. -/
theorem not_parsesBoolean_signature (front : String) : ¬ParsesBoolean (front ++ ">>;") := by
  rintro ⟨object, -, name, text, heq⟩
  have hlast := congrArg (fun line => line.toList.reverse.take 2) heq
  simp at hlast

/-- Declarations do not parse. -/
theorem not_emits_emit (api : Api) (options : Options) :
    ¬Emits ParsesBoolean (Step.textsAll (emit api options).code) := by
  have hcomment : ∀ comment : DocComment, ¬Emits ParsesBoolean (Step.textsAll comment.steps) :=
    fun comment => not_emits_of_silent (fun _ => .inl) (not_emits_docComment comment)
  have hfield : ∀ f, ¬Emits ParsesBoolean (Step.textsAll (fieldSteps f)) := by
    intro f
    have hline := not_parsesBoolean_field f.name ((TypeExpr.ofValueType f.type).text ++ ";")
    rw [← String.append_assoc] at hline
    simpa [fieldSteps, hcomment, Step.texts] using hline
  have hmethod : ∀ e, ¬Emits ParsesBoolean (Step.textsAll (methodSteps e)) := by
    simp [methodSteps, hcomment, Step.texts, not_parsesBoolean_signature]
  have hvalue : ∀ v, ¬Emits ParsesBoolean (Step.textsAll (enumValueSteps v)) := by
    intro v
    have hlast : (propertyKey v.name ++ " = " ++ literal v.name ++ ",").toList.getLast? ≠
        some ';' := by
      rw [String.toList_append, List.getLast?_append]
      simp
    have hline : ¬ParsesBoolean (propertyKey v.name ++ " = " ++ literal v.name ++ ",") := fun h =>
      not_callsHelper_of_last hlast (.inl h)
    simp [enumValueSteps, hcomment, Step.texts, hline]
  simp [emit, serviceSteps, endpointSteps, dtoSteps, enumSteps, recordSteps, hcomment, hfield,
    hmethod, hvalue, Step.texts, Step.braces, not_parsesBoolean_of_start, MayCall]

end Types

end Stub

end HttpStubs

import Mathlib.Data.List.Basic
import HttpStubs.Proofs.CallScanning
import HttpStubs.Proofs.Declarations

/-!
# Guards in front of the request

The body of a client method first takes each path field into its variable and refuses the request if
the field is missing, then does the same for a required body field; only then it builds the URI, and
only after that it sends the request, in one place (`guards_precede_transport`). The calls are read
from the emitted text, types apart. The URI is made of exactly the variables of the guards.
-/

namespace HttpStubs.Stub.Client

open Api (Endpoint PathPart RequestBody Response ResponseBody Scalar Slot)
open Api.PathTemplate (captured)
open Code
open Code.Writer (indented)

/-! ## Calls of a method -/

/-- The functions that refuse a request and send it. -/
def isHelper (name : String) : Bool :=
  name == "createRequiredRequestFieldError" || name == "fetchResponse"

theorem calls_requestField (name : String) : Calls isHelper (requestField name) [] :=
  calls_propertyAccess rfl name

theorem calls_uriVariable (name : String) : Calls isHelper (uriVariable name) [] :=
  calls_of_isNameChar (all_isNameChar_of_isBareName (isBareName_uriVariable name))

theorem calls_toUri (k : Scalar) {value : String} (h : Calls isHelper value []) :
    Calls isHelper (k.toUri value) [] := by
  have hencode := h.preceded "encodeURIComponent(" (by decide)
  have hencoded := hencode.followed ")" (by decide)
  have hshown : Calls isHelper (value ++ ".toString()") [] := h.followed ".toString()" (by decide)
  cases k with
  | string => exact hencoded
  | bytes => exact hencoded
  | enum name => exact hencoded
  | double => exact hencode.followed ".toString())" (by decide)
  | _ => exact hshown

theorem calls_toHeader (k : Scalar) {value : String} (h : Calls isHelper value []) :
    Calls isHelper (k.toHeader value) [] := by
  have hshown : Calls isHelper (value ++ ".toString()") [] := h.followed ".toString()" (by decide)
  cases k with
  | string => exact h
  | bytes => exact h
  | enum name => exact h
  | _ => exact hshown

/-- Without types, what is read from a header calls no helper. -/
theorem calls_ofText (k : Scalar) : Calls isHelper (k.ofText .javaScript "headerValue") [] := by
  cases k with
  | enum name => exact (by decide : Calls isHelper ("headerValue" ++ "") [])
  | _ => decide

theorem linesCall_refusal (name : String) :
    LinesCall isHelper [indented 1 (refusalLine name), "\x7d"]
      ["createRequiredRequestFieldError"] := by
  have hcall : Calls isHelper "return Promise.resolve(createRequiredRequestFieldError("
      ["createRequiredRequestFieldError"] := by
    decide
  have hreturn : Calls isHelper (refusalLine name) ["createRequiredRequestFieldError"] :=
    (hcall.append (calls_literal name) (.inl (by decide))).followed "));" (by decide)
  exact .cons (hreturn.indented 1) (.quiet_cons (by decide) .nil)

theorem linesCall_guardLines (s : Slot) :
    LinesCall isHelper (guardLines s) ["createRequiredRequestFieldError"] := by
  have hfield := calls_requestField s.name
  have hvariable := calls_uriVariable s.name
  refine .quiet_cons ?_ (.quiet_cons ?_ (linesCall_refusal s.name))
  · exact (((hvariable.preceded "const " (by decide)).between " = " hfield (by decide)).between
      " != null && " (calls_toUri s.kind hfield) (by decide)).followed ";" (by decide)
  · exact (hvariable.preceded "if (!" (by decide)).followed ") \x7b" (by decide)

theorem linesCall_bodyGuardLines (e : Endpoint) :
    LinesCall isHelper (bodyGuardLines e)
      ((requiredBodyField? e).toList.flatMap fun _ => ["createRequiredRequestFieldError"]) := by
  refine .flatMap fun f _ => .quiet_cons ?_ (linesCall_refusal f.name)
  exact ((calls_requestField f.name).preceded "if (" (by decide)).followed " == null) \x7b"
    (by decide)

theorem calls_uriLine {e : Endpoint} (h : IsPlain e.path) : Calls isHelper (uriLine e) [] := by
  have huri : ∀ text, Calls isHelper text [] ∧ endsApart text →
      Calls isHelper (text ++ uriExpression e.path ++ ";") [] := fun text ht =>
    ((calls_uriExpression h).preceded text ht).followed ";" (by decide)
  unfold uriLine
  split_ifs
  · exact huri "const uri = " (by decide)
  · exact huri "let uri = " (by decide)

theorem linesCall_queryLines (e : Endpoint) :
    LinesCall isHelper (queryLines e .javaScript) [] := by
  have hpush : ∀ line ∈ e.queryFields.map queryLine, Calls isHelper line [] := by
    intro line hline
    obtain ⟨s, -, rfl⟩ := List.mem_map.1 hline
    have hfield := calls_requestField s.name
    exact (((hfield.between " == null || query.push(" (calls_literal _) (by decide)).between " + "
      (calls_toUri s.kind hfield) (by decide)).followed ");" (by decide))
  unfold queryLines
  split_ifs
  · exact .nil
  · have hconst : Calls isHelper ("const query" ++ "" ++ " = [];") [] := by decide
    exact .append (.quiet_cons hconst (.quiet hpush)) (.quiet (by decide))

theorem calls_bodyExpression {body : RequestBody} {text : String}
    (h : bodyExpression? body = some text) : Calls isHelper text [] := by
  cases body with
  | none => cases h
  | field f =>
    obtain rfl := Option.some.inj h
    exact calls_requestField f.name
  | wholeRequest =>
    obtain rfl := Option.some.inj h
    decide
  | normal fields =>
    obtain rfl := Option.some.inj h
    refine calls_braced fun entry hentry => ?_
    obtain ⟨f, -, rfl⟩ := List.mem_map.1 hentry
    exact (calls_propertyKey f.name).between ": " (calls_propertyAccess rfl f.name) (by decide)

theorem linesCall_memberLines (e : Endpoint) : LinesCall isHelper (memberLines e) [] := by
  unfold memberLines
  split
  next body hbody =>
    refine .quiet_cons (by decide) (.quiet_cons ?_ .nil)
    exact ((calls_bodyExpression hbody).preceded "body: JSON.stringify(" (by decide)).followed "),"
      (by decide)
  next =>
    split_ifs
    · exact .nil
    · exact .quiet_cons (by decide) .nil

theorem linesCall_headerLines (s : Slot) : LinesCall isHelper (headerLines .javaScript s) [] := by
  have hfield := calls_requestField s.name
  have hset := (calls_literal (p := isHelper) s.wire).preceded ("fetchRequest.headers" ++ "" ++ "[")
    (by decide)
  refine .quiet_cons ?_ (.quiet_cons (.indented ?_ 1) (.quiet_cons (by decide) .nil))
  · exact (hfield.preceded "if (" (by decide)).followed " != null) \x7b" (by decide)
  · exact (hset.between "] = " (calls_toHeader s.kind hfield) (by decide)).followed ";" (by decide)

theorem linesCall_requestLines (e : Endpoint) :
    LinesCall isHelper (requestLines e .javaScript) [] := by
  have hconst : Calls isHelper ("const fetchRequest" ++ "" ++ " = \x7b") [] := by decide
  have hmethod : Calls isHelper ("method: " ++ literal e.verb.wire ++ ",") [] :=
    ((calls_literal _).preceded "method: " (by decide)).followed "," (by decide)
  have hmembers := LinesCall.quiet_cons hmethod (linesCall_memberLines e)
  have hheaders : LinesCall isHelper (e.requestHeaderFields.flatMap (headerLines .javaScript)) [] :=
    .quiet_flatMap fun s _ => linesCall_headerLines s
  exact .append (.quiet_cons hconst (hmembers.indented 1)) (.quiet_cons (by decide) hheaders)

theorem linesCall_decodingLines (e : Endpoint) (body : ResponseBody) :
    LinesCall isHelper (decodingLines e .javaScript body) [] := by
  cases body with
  | empty => exact .quiet_cons (by decide) .nil
  | flag f =>
    refine .quiet_cons ?_ .nil
    exact ((calls_propertyKey f.name).preceded "value = \x7b " (by decide)).followed ": true \x7d;"
      (by decide)
  | field f =>
    have hkey := ((calls_propertyKey (p := isHelper) f.name).preceded "value = \x7b "
      (by decide)).followed ": result.json \x7d" (by decide)
    refine .quiet_cons (by decide) (.quiet_cons (.indented ?_ 1) (.quiet_cons (by decide) .nil))
    exact (hkey.followed "" (by decide)).followed ";" (by decide)
  | normal fields =>
    have hjson : Calls isHelper ("value = result.json" ++ "" ++ ";") [] := by decide
    exact .quiet_cons (by decide) (.quiet_cons (hjson.indented 1) (.quiet_cons (by decide) .nil))

theorem linesCall_chainLines (e : Endpoint) (rs : List Response) :
    LinesCall isHelper (chainLines e .javaScript rs) [] := by
  have htest : ∀ status, Calls isHelper (testLine status) [] := fun status =>
    ((calls_repr _).preceded "if (status === " (by decide)).followed ") \x7b" (by decide)
  cases rs with
  | nil => exact .nil
  | cons r rs =>
    refine .append (.append (.quiet_cons (htest r.status)
      ((linesCall_decodingLines e r.body).indented 1)) (.quiet_flatMap fun r _ => ?_))
      (.quiet_cons (by decide) .nil)
    exact .quiet_cons ((htest r.status).preceded "\x7d else " (by decide))
      ((linesCall_decodingLines e r.body).indented 1)

theorem linesCall_overlayLines (e : Endpoint) :
    LinesCall isHelper (overlayLines e .javaScript) [] := by
  have hlet : Calls isHelper ("let headerValue" ++ "" ++ ";") [] := by decide
  unfold overlayLines
  split_ifs
  · exact .nil
  · refine .quiet_cons (by decide) (.quiet_cons hlet (.quiet_flatMap fun s _ => ?_))
    have hvalue := calls_propertyAccess (p := isHelper) (by decide : "value".toList.all isNameChar)
      s.name
    refine .quiet_cons ?_ (.quiet_cons (by decide) (.quiet_cons (.indented ?_ 1)
      (.quiet_cons (by decide) .nil)))
    · exact ((calls_literal s.wire).preceded "headerValue = result.response.headers.get("
        (by decide)).followed ");" (by decide)
    · exact (hvalue.between " = " (calls_ofText s.kind) (by decide)).followed ";" (by decide)

theorem linesCall_dispatchLines (e : Endpoint) :
    LinesCall isHelper (dispatchLines e .javaScript) ["fetchResponse"] := by
  have htransport : Calls isHelper transportLine ["fetchResponse"] := by decide
  have hstatus : LinesCall isHelper (statusLines e .javaScript) [] := by
    have hvalue : Calls isHelper ("let value" ++ "" ++ " = null;") [] := by decide
    exact .quiet_cons (by decide) (.quiet_cons hvalue .nil)
  have hfailure : LinesCall isHelper (failureLines e .javaScript) [] := by
    have hreturn : Calls isHelper ("return createResponseError(status, result.json)" ++ "" ++ ";")
      [] := by decide
    exact .quiet_cons (by decide) (.quiet_cons (hreturn.indented 1) (.quiet_cons (by decide) .nil))
  have hblank : Calls isHelper "" [] := rfl
  have hreturn : LinesCall isHelper ["", "return \x7b value: value \x7d;"] [] := .quiet (by decide)
  have hinner := (((hstatus.append (linesCall_chainLines e e.responses)).append
    (.quiet_cons hblank hfailure)).append (linesCall_overlayLines e)).append hreturn
  exact .append (.cons htransport (hinner.indented 1)) (.quiet_cons (by decide) .nil)

/-- A method refuses a request once for each path field and for a required body field, and after
that calls the transport once. -/
theorem linesCall_bodyLines {e : Endpoint} (h : IsPlain e.path) :
    LinesCall isHelper (bodyLines e .javaScript)
      (List.replicate (e.pathFields.length + (requiredBodyField? e).toList.length)
        "createRequiredRequestFieldError" ++ ["fetchResponse"]) := by
  -- Only the guards and the dispatch call a helper; the lines between them are quiet.
  have hguards := LinesCall.flatMap fun s (_ : s ∈ e.pathFields) => linesCall_guardLines s
  have huri := LinesCall.quiet_cons (calls_uriLine h) (linesCall_queryLines e)
  have hlines := (((hguards.append (linesCall_bodyGuardLines e)).append huri).append
    (linesCall_requestLines e)).append (linesCall_dispatchLines e)
  have hnames : ∀ {α : Type} (xs : List α), xs.flatMap
      (fun _ => ["createRequiredRequestFieldError"]) =
        List.replicate xs.length "createRequiredRequestFieldError" := by
    intro α xs
    rw [← List.map_const', List.map_eq_flatMap]
  rw [hnames, hnames, List.append_nil, List.append_nil, List.replicate_append_replicate] at hlines
  exact hlines

/-- The type fragments of a method's body. -/
def bodyFragments (e : Endpoint) : Dialect → List TypeFragment
  | .typeScript => uriFragments e ++ requestFragments e ++ dispatchFragments e
  | .javaScript => []

/-- Without its type fragments, the body is that of the dialect without types. -/
theorem linesErase_bodyLines (e : Endpoint) (dialect : Dialect) :
    LinesErase (bodyFragments e dialect) (bodyLines e dialect) (bodyLines e .javaScript) := by
  rw [← lineList_methodBody, ← lineList_methodBody]
  cases dialect with
  | javaScript => exact (StepsErase.refl _).linesErase
  | typeScript =>
    have hsteps : StepsErase (bodyFragments e .typeScript) (methodBody .typeScript e)
        (methodBody .javaScript e) :=
      .append (.append (.preceded _ (stepsErase_uri e)) (stepsErase_request e))
        (stepsErase_dispatch e)
    exact hsteps.linesErase

/-! ## Variables of the URI -/

/-- The variable of a piece. -/
def holeName? : Piece → Option String
  | .char _ => none
  | .hole name => some name

/-- The variables that are filled in by a line that declares a variable and sets it to a literal. -/
def interpolated? (line : String) : Option (List String) := do
  let declared ← afterKeyword? line
  let value ← after? " = " (String.ofList (declared.dropWhile isNameChar))
  let read ← readText value
  if read.2 = [';'] then some (read.1.filterMap holeName?) else none

theorem filterMap_partPieces (parts : List PathPart) :
    (parts.flatMap partPieces).filterMap holeName? =
      (captured parts).map uriVariable := by
  induction parts with
  | nil => rfl
  | cons part parts ih =>
    rw [List.flatMap_cons, List.filterMap_append, ih]
    cases part with
    | text t =>
      have hnone : (partPieces (.text t)).filterMap holeName? = [] := by
        simp [partPieces, holeName?, List.filterMap_map, Function.comp_def]
      rw [hnone]
      rfl
    | capture s => rfl

theorem captured_relativeParts (parts : List PathPart) :
    captured (relativeParts parts) = captured parts := by
  unfold relativeParts
  split <;> rfl

theorem interpolated?_uriLine {e : Endpoint} (h : IsPlain e.path) :
    interpolated? (uriLine e) = some ((captured e.path).map uriVariable) := by
  obtain ⟨keyword, hkeyword, hline⟩ := uriLine_eq e
  have hname : ("uri" ++ (" = " ++ (uriExpression e.path ++ ";"))).toList.dropWhile isNameChar =
      (" = " ++ (uriExpression e.path ++ ";")).toList := by
    rw [String.toList_append, dropWhile_name_append (by decide) (by simp; decide)]
  have hread : readText (uriExpression e.path ++ ";").toList =
      some ((relativeParts e.path).flatMap partPieces, [';']) := by
    rw [String.toList_append]
    exact readText_uriExpression h [';']
  rw [interpolated?, hline, afterKeyword?_append hkeyword]
  simp only [Option.bind_eq_bind, Option.bind_some, hname, String.ofList_toList, after?_append,
    hread, if_true, filterMap_partPieces, captured_relativeParts]

/-! ## The order of a method -/

/-- The body of a method guards each path field in the order of the binding, each with one
declaration and one refusal, then a required body field, then declares the URI, and sends the
request after all of these. Types apart, it calls the refusing function once for each guard and
after that the transport once. The variables that are filled into the URI are those that the guards
of the path fields declare. -/
theorem guards_precede_transport {d : Service.Document} {api : HttpStubs.Api}
    (h : Api.ofDocument d = .ok api) {e : Endpoint} (he : e ∈ api.endpoints) (dialect : Dialect) :
    ∃ b, d.http.method? e.name = some b ∧ e.pathFields.map Slot.name = b.pathFields ∧
      ∃ front body between after code used,
        methodLines dialect e = front ++ indented 1 (methodHead e dialect ++ " \x7b") ::
          body.map (indented 2) ++ [indented 1 "\x7d"] ∧
        body = e.pathFields.flatMap guardLines ++ bodyGuardLines e ++ uriLine e :: between ++
          transportLine :: after ∧
        LinesErase (bodyFragments e dialect) body code ∧
        (∀ newline, (readCalls (Writer.textOf newline code)).map (List.filter isHelper) =
          some (List.replicate (e.pathFields.length + (requiredBodyField? e).toList.length)
            "createRequiredRequestFieldError" ++ ["fetchResponse"])) ∧
        interpolated? (uriLine e) = some used ∧
        ∀ name, name ∈ used ↔
          name ∈ (declarations (e.pathFields.flatMap guardLines)).map Prod.snd := by
  obtain ⟨b, hb, hres⟩ := Api.resolved_of_mem_endpoints h he
  have hplain := isPlain_of_template
    (Api.PathTemplate.template_of_parseText (Api.PathTemplate.parse_eq_ok_iff.1 hres.path).1)
  refine ⟨b, hb, hres.name_pathFields, _, bodyLines e dialect,
    queryLines e dialect ++ requestLines e dialect, (dispatchLines e dialect).tail,
    bodyLines e .javaScript, _,
    methodLines_eq dialect e, ?_, linesErase_bodyLines e dialect,
    (linesCall_bodyLines hplain).calls_textOf, interpolated?_uriLine hplain, fun name => ?_⟩
  · have hdispatch : dispatchLines e dialect = transportLine :: (dispatchLines e dialect).tail :=
      rfl
    rw [← hdispatch, bodyLines]
    simp only [List.append_assoc, List.cons_append]
  · have hdeclared : (declarations (e.pathFields.flatMap guardLines)).map Prod.snd =
        (e.pathFields.map Slot.name).map uriVariable := by
      rw [declarations_guards, List.map_map, List.map_map]
      rfl
    rw [hdeclared, List.mem_map, List.mem_map]
    simp only [Api.PathTemplate.mem_captured_iff_of_parse hres.path]

/-- A method with a field in the path, which it holds twice, one in the query and a required one
that is the body. -/
def renameMethod : Service.Method where
  name := "renameWidget"
  requestFields := [{ name := "id", type := .string }, { name := "dryRun", type := .boolean },
    { name := "label", type := .string, required := true }]

def renameDocument : Service.Document where
  service := { name := "Widgets", methods := [renameMethod] }
  http := {
    methods := [{
      name := "renameWidget"
      verb := .put
      path := "/widgets/\x7bid\x7d/\x7bid\x7d"
      pathFields := ["id"]
      queryFields := [⟨"dryRun", "dry-run"⟩]
      requestBodyField := some "label" }] }

def renameEndpoint : Endpoint where
  method := renameMethod
  verb := .put
  path := [.text "/widgets/", .capture (Server.textSlot "id"), .text "/",
    .capture (Server.textSlot "id")]
  pathFields := [Server.textSlot "id"]
  queryFields := [⟨{ name := "dryRun", type := .boolean }, "dry-run", .boolean⟩]
  requestHeaderFields := []
  requestBody := .field { name := "label", type := .string, required := true }
  responseHeaderFields := []
  responses := []

def renameApi : HttpStubs.Api where
  service := { name := "Widgets", methods := [renameMethod] }
  baseUri := none
  endpoints := [renameEndpoint]

theorem rename_guards_precede_transport :
    Api.ofDocument renameDocument = .ok renameApi ∧
      ∃ front body between after code used,
        methodLines .typeScript renameEndpoint =
          front ++ indented 1 (methodHead renameEndpoint .typeScript ++ " \x7b") ::
            body.map (indented 2) ++ [indented 1 "\x7d"] ∧
        body = guardLines (Server.textSlot "id") ++ bodyGuardLines renameEndpoint ++
          "let uri = \x60widgets/$\x7buriPartId\x7d/$\x7buriPartId\x7d\x60;" :: between ++
          transportLine :: after ∧
        LinesErase (bodyFragments renameEndpoint .typeScript) body code ∧
        (readCalls (Writer.textOf .lf code)).map (List.filter isHelper) =
          some ["createRequiredRequestFieldError", "createRequiredRequestFieldError",
            "fetchResponse"] ∧
        interpolated? "let uri = \x60widgets/$\x7buriPartId\x7d/$\x7buriPartId\x7d\x60;" =
          some used ∧
        ∀ name, name ∈ used ↔ name ∈ ["uriPartId"] := by
  have h : Api.ofDocument renameDocument = .ok renameApi := rfl
  have he : renameEndpoint ∈ renameApi.endpoints := List.mem_cons_self
  obtain ⟨b, -, -, front, body, between, after, code, used, hlines, hbody, hcode, hcalls, hused,
    hnames⟩ := guards_precede_transport h he .typeScript
  exact ⟨h, front, body, between, after, code, used, hlines, hbody, hcode, hcalls .lf, hused,
    hnames⟩

end HttpStubs.Stub.Client

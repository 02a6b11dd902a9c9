import Mathlib.Data.List.Basic
import HttpStubs.Proofs.DialectStructure
import HttpStubs.Proofs.ResponseLines

/-!
# The lines of a client method

The body of a method, line by line and in both dialects (`bodyLines`): the guards of the path fields
and of the body field, the declaration of the URI, the query, the request, and the dispatch of the
response. A method is its comment, its head and this body (`methodLines_eq`).
-/

namespace HttpStubs.Stub.Client

open Api (Endpoint RequestBody Slot)
open Code
open Code.Writer (indented)

/-- The line that answers that a required field is missing. -/
def refusalLine (name : String) : String :=
  "return Promise.resolve(createRequiredRequestFieldError(" ++ literal name ++ "));"

/-- The lines that take a path field into its variable, and refuse a request without it. -/
def guardLines (s : Slot) : List String :=
  ["const " ++ uriVariable s.name ++ " = " ++ requestField s.name ++ " != null && " ++
      s.kind.toUri (requestField s.name) ++ ";",
    "if (!" ++ uriVariable s.name ++ ") \x7b", indented 1 (refusalLine s.name), "\x7d"]

/-- The lines that refuse a request without its required body field. -/
def bodyGuardLines (e : Endpoint) : List String :=
  (requiredBodyField? e).toList.flatMap fun f =>
    ["if (" ++ requestField f.name ++ " == null) \x7b", indented 1 (refusalLine f.name), "\x7d"]

/-- The line that declares the URI, as a variable only if a query may follow it. -/
def uriLine (e : Endpoint) : String :=
  (if e.queryFields.isEmpty then "const" else "let") ++ " uri = " ++ uriExpression e.path ++ ";"

/-- The line that adds a query field. -/
def queryLine (s : Slot) : String :=
  requestField s.name ++ " == null || query.push(" ++ literal (s.wire ++ "=") ++ " + " ++
    s.kind.toUri (requestField s.name) ++ ");"

/-- The lines that add the query to the URI. -/
def queryLines (e : Endpoint) (dialect : Dialect) : List String :=
  if e.queryFields.isEmpty then []
  else
    ("const query" ++ dialect.onlyTyped ": string[]" ++ " = [];") :: e.queryFields.map queryLine ++
      ["if (query.length) \x7b", "\turi = uri + '?' + query.join('&');", "\x7d"]

/-- The lines of the request's members for headers and body. -/
def memberLines (e : Endpoint) : List String :=
  match bodyExpression? e.requestBody with
  | some body =>
    ["headers: \x7b 'Content-Type': 'application/json' \x7d,",
      "body: JSON.stringify(" ++ body ++ "),"]
  | none => if e.requestHeaderFields.isEmpty then [] else ["headers: \x7b\x7d,"]

/-- The lines that set a header. -/
def headerLines (dialect : Dialect) (s : Slot) : List String :=
  ["if (" ++ requestField s.name ++ " != null) \x7b",
    indented 1 ("fetchRequest.headers" ++ dialect.onlyTyped "!" ++ "[" ++ literal s.wire ++
      "] = " ++ s.kind.toHeader (requestField s.name) ++ ";"),
    "\x7d"]

/-- The lines that build the request. -/
def requestLines (e : Endpoint) (dialect : Dialect) : List String :=
  ("const fetchRequest" ++ dialect.onlyTyped ": IFetchRequest" ++ " = \x7b") ::
    (("method: " ++ literal e.verb.wire ++ ",") :: memberLines e).map (indented 1) ++
    "\x7d;" :: e.requestHeaderFields.flatMap (headerLines dialect)

/-- The lines of the body of a method. -/
def bodyLines (e : Endpoint) (dialect : Dialect) : List String :=
  e.pathFields.flatMap guardLines ++ bodyGuardLines e ++ uriLine e :: queryLines e dialect ++
    requestLines e dialect ++ dispatchLines e dialect

/-! ## What the steps write -/

theorem solid_pathGuard (s : Slot) : Step.Solid (pathGuard s) := by
  simp [pathGuard]

theorem lineList_pathGuard (s : Slot) : Step.lineList (pathGuard s) = guardLines s := by
  rw [pathGuard, requiredError, Step.lineList_cons rfl (by simp), Step.lineList_line,
    Step.lineList_braces_line, @String.append_assoc _ _ " \x7b"]
  rfl

theorem solid_bodyGuard (e : Endpoint) : Step.Solid (bodyGuard e) := by
  unfold bodyGuard
  split <;> simp

theorem lineList_bodyGuard (e : Endpoint) : Step.lineList (bodyGuard e) = bodyGuardLines e := by
  unfold bodyGuard bodyGuardLines
  cases requiredBodyField? e with
  | none => rfl
  | some f =>
    simp only [requiredError, Step.lineList_braces_line, @String.append_assoc _ _ " \x7b"]
    rfl

theorem solid_uriSteps (e : Endpoint) (dialect : Dialect) : Step.Solid (uriSteps e dialect) := by
  unfold uriSteps
  split_ifs <;> simp [queryStep]

theorem lineList_uriSteps (e : Endpoint) (dialect : Dialect) :
    Step.lineList (uriSteps e dialect) = uriLine e :: queryLines e dialect := by
  have hquery : e.queryFields.map queryStep = (e.queryFields.map queryLine).map .line := by
    rw [List.map_map]
    rfl
  unfold uriSteps uriLine queryLines
  split_ifs
  · rw [Step.lineList_line]
    rfl
  · rw [hquery, Step.lineList_append (by simp) (by simp), Step.lineList_append (by simp) (by simp),
      Step.lineList_map_line, Step.lineList_braces_line, Step.lineList_cons rfl (by simp),
      Step.lineList_line, Step.lineList_line]
    rfl

theorem solid_requestSteps (e : Endpoint) (dialect : Dialect) :
    Step.Solid (requestSteps e dialect) := by
  simp [requestSteps, headerStep]

theorem lineList_bodySteps (e : Endpoint) : Step.lineList (bodySteps e) = memberLines e := by
  unfold bodySteps memberLines
  cases bodyExpression? e.requestBody with
  | some body => exact Step.lineList_map_line [_, _]
  | none =>
    simp only
    split_ifs
    · rfl
    · exact Step.lineList_line _

theorem solid_bodySteps (e : Endpoint) : Step.Solid (bodySteps e) := by
  unfold bodySteps
  split
  · simp
  · split_ifs <;> simp

theorem lineList_headerStep (dialect : Dialect) (s : Slot) :
    Step.lineList [headerStep dialect s] = headerLines dialect s := by
  rw [headerStep, Step.lineList_braces_line, @String.append_assoc _ _ " \x7b"]
  rfl

theorem lineList_requestSteps (e : Endpoint) (dialect : Dialect) :
    Step.lineList (requestSteps e dialect) = requestLines e dialect := by
  have hheaders : Step.Solid (e.requestHeaderFields.map (headerStep dialect)) := by
    simp [headerStep]
  have hlines : Step.lineList (e.requestHeaderFields.map (headerStep dialect)) =
      e.requestHeaderFields.flatMap (headerLines dialect) := by
    rw [Step.lineList_solid hheaders, List.flatMap_map]
    simp only [lineList_headerStep]
  rw [requestSteps, Step.lineList_cons rfl hheaders, Step.lineList_block _ _ (.inr rfl),
    Step.lineList_cons rfl (solid_bodySteps e), Step.lineList_line, lineList_bodySteps, hlines,
    requestLines]
  simp

theorem solid_docSteps (comment : DocComment) : Step.Solid comment.steps := by
  unfold DocComment.steps
  split <;> simp

/-- The steps of a method's body. -/
def methodBody (dialect : Dialect) (e : Endpoint) : List Step :=
  e.pathFields.flatMap pathGuard ++ bodyGuard e ++ uriSteps e dialect ++ requestSteps e dialect ++
    dispatch e dialect

theorem solid_methodBody (dialect : Dialect) (e : Endpoint) :
    Step.Solid (methodBody dialect e) := by
  simp [methodBody, solid_pathGuard, solid_bodyGuard, solid_uriSteps, solid_requestSteps,
    dispatch_eq]

theorem lineList_methodBody (dialect : Dialect) (e : Endpoint) :
    Step.lineList (methodBody dialect e) = bodyLines e dialect := by
  have hguards : Step.Solid (e.pathFields.flatMap pathGuard) := by simp [solid_pathGuard]
  have hguard := solid_bodyGuard e
  have huri := solid_uriSteps e dialect
  have hrequest := solid_requestSteps e dialect
  have hdispatch : Step.Solid (dispatch e dialect) := by simp [dispatch_eq]
  rw [methodBody, Step.lineList_append (by simp [*]) hdispatch,
    Step.lineList_append (by simp [*]) hrequest, Step.lineList_append (by simp [*]) huri,
    Step.lineList_append hguards hguard, Step.lineList_flatMap fun s _ => solid_pathGuard s,
    lineList_bodyGuard, lineList_uriSteps, lineList_requestSteps, lineList_dispatch, bodyLines]
  simp only [lineList_pathGuard]

/-- A method: its comment, its head, and its body one level deeper. -/
theorem methodLines_eq (dialect : Dialect) (e : Endpoint) :
    methodLines dialect e =
      (Step.lineList (DocComment.ofDocs e.method.docs).steps).map (indented 1) ++
        indented 1 (methodHead e dialect ++ " \x7b") :: (bodyLines e dialect).map (indented 2) ++
        [indented 1 "\x7d"] := by
  have hsteps : methodSteps dialect e = (DocComment.ofDocs e.method.docs).steps ++
      [.braces (methodHead e dialect) (methodBody dialect e)] := rfl
  rw [methodLines, hsteps, Step.lineList_append (solid_docSteps _) (by simp),
    Step.lineList_braces _ (solid_methodBody dialect e), lineList_methodBody]
  simp [Writer.indented_indented]

end HttpStubs.Stub.Client

import HttpStubs.Code.DocComment
import HttpStubs.Options
import HttpStubs.Stub.Section

/-!
# The server

A function that makes a router with a route for each endpoint. A route reads the request from
captures, query, body and headers, calls the service, and sends the first valid response that the
result satisfies. An error is sent with the status of its code.
-/

namespace HttpStubs.Stub.Server

open Api (Endpoint PathPart RequestBody Response Slot)
open Code

/-- The error codes that have a status of their own. -/
def errorStatuses : List (String × Nat) :=
  [("NotModified", 304), ("InvalidRequest", 400), ("NotAuthenticated", 401), ("NotAuthorized", 403),
    ("NotFound", 404), ("Conflict", 409), ("RequestTooLarge", 413), ("TooManyRequests", 429),
    ("InternalError", 500), ("ServiceUnavailable", 503)]

/-- The table of error codes. -/
def errorTable (dialect : Dialect) : List Step :=
  [.block ("const standardErrorCodes" ++ dialect.onlyTyped ": \x7b [code: string]: number \x7d" ++
      " = \x7b") "\x7d;"
    (errorStatuses.map fun (code, status) => .line (code ++ ": " ++ status.repr ++ ","))]

/-- The expression for a field of the request. -/
def requestField (name : String) : String :=
  propertyAccess "request" name

/-- The expression for a field of the result. -/
def resultField (name : String) : String :=
  propertyAccess "result.value" name

/-! ## Routes -/

/-- A part of a path in a route, with captures marked by a colon. -/
def routePart : PathPart → String
  | .text text => text
  | .capture slot => ":" ++ slot.wire

/-- The route of a path; it starts with a slash. -/
def routePath (path : List PathPart) : String :=
  let route := String.join (path.map routePart)
  if route.toList.head? = some '/' then route else "/" ++ route

/-! ## Reading the request -/

/-- Reads a path field from its capture. -/
def pathStep (dialect : Dialect) (s : Slot) : Step :=
  .line (requestField s.name ++ " = " ++
    s.kind.ofText dialect (propertyAccess "req.params" s.wire) ++ ";")

/-- Reads a query field that has one value. -/
def queryStep (dialect : Dialect) (s : Slot) : Step :=
  let value := "req.query[" ++ literal s.wire ++ "]"
  .braces ("if (typeof " ++ value ++ " === 'string')")
    [.line (requestField s.name ++ " = " ++ s.kind.ofText dialect value ++ ";")]

/-- Reads fields from the members of the body. -/
def bodyMembers (fields : List Service.Field) : List Step :=
  if fields.isEmpty then []
  else
    [.braces "if (req.body)"
      (fields.map fun f =>
        .line (requestField f.name ++ " = " ++ propertyAccess "req.body" f.name ++ ";"))]

/-- Reads the body. -/
def bodySteps (e : Endpoint) : List Step :=
  match e.requestBody with
  | .none => []
  | .field f => [.line (requestField f.name ++ " = req.body;")]
  | .wholeRequest => bodyMembers e.method.requestFields
  | .normal fields => bodyMembers fields

/-- Reads a field from its header. -/
def headerSteps (dialect : Dialect) (s : Slot) : List Step :=
  [.line ("headerValue = req.header(" ++ literal s.wire ++ ");"),
    .braces "if (headerValue != null)"
      [.line (requestField s.name ++ " = " ++ s.kind.ofText dialect "headerValue" ++ ";")]]

/-- Reads the request. -/
def requestSteps (e : Endpoint) (dialect : Dialect) : List Step :=
  .line ("const request" ++ dialect.onlyTyped (": " ++ e.requestType) ++ " = \x7b\x7d;") ::
    e.pathFields.map (pathStep dialect) ++ e.queryFields.map (queryStep dialect) ++ bodySteps e ++
    if e.requestHeaderFields.isEmpty then []
    else
      .line ("let headerValue" ++ dialect.onlyTyped ": string | undefined" ++ ";") ::
        e.requestHeaderFields.flatMap (headerSteps dialect)

/-! ## Sending the response -/

/-- Sets a response header from a field that has a value. -/
def responseHeaderStep (s : Slot) : Step :=
  .braces ("if (" ++ resultField s.name ++ " != null)")
    [.line ("res.setHeader(" ++ literal s.wire ++ ", " ++ s.kind.toHeader (resultField s.name) ++
      ");")]

/-- Sends a response if the result satisfies it. -/
def responseSteps (r : Response) : List Step :=
  let status := r.status.toNat.repr
  match r.body with
  | .empty => [.line ("res.sendStatus(" ++ status ++ ");"), .line "return;"]
  | .flag f =>
    [.braces ("if (" ++ resultField f.name ++ ")")
      [.line ("res.sendStatus(" ++ status ++ ");"), .line "return;"]]
  | .field f =>
    [.braces ("if (" ++ resultField f.name ++ " != null)")
      [.line ("res.status(" ++ status ++ ").send(" ++ resultField f.name ++ ");"), .line "return;"]]
  | .normal fields =>
    [.line ("res.status(" ++ status ++ ").send(" ++
        braced (fields.map fun f => propertyKey f.name ++ ": " ++ resultField f.name) ++ ");"),
      .line "return;"]

/-- The responses up to the first that fits every result. -/
def reachable : List Response → List Response
  | [] => []
  | r :: rs => if r.body.isUnconditional then [r] else r :: reachable rs

/-- Sends the status and body of an error. Only the table's own keys count. -/
def errorSteps : List Step :=
  [.line "const code = result.error.code;",
    .line ("const status = code && " ++
      "Object.prototype.hasOwnProperty.call(standardErrorCodes, code)" ++
      " ? standardErrorCodes[code] : 500;"),
    .line "res.status(status).send(result.error);",
    .line "return;"]

/-- Calls the service and sends its result. -/
def invokeSteps (e : Endpoint) : List Step :=
  [.block ("return service." ++ e.name ++ "(request).then(result => \x7b") "\x7d).catch(next);"
    [.braces "if (result.error)" errorSteps,
      .braces "if (result.value)"
        (e.responseHeaderFields.map responseHeaderStep ++
          (reachable e.responses).flatMap responseSteps),
      .line "throw new Error('Result must have an error or value.');"]]

/-! ## The section -/

/-- The route of an endpoint. -/
def routeSteps (dialect : Dialect) (e : Endpoint) : List Step :=
  (DocComment.ofDocs e.method.docs).steps ++
    [.block ("app." ++ e.verb.route ++ "(" ++ literal (routePath e.path) ++
        ", function (req, res, next) \x7b") "\x7d);"
      (requestSteps e dialect ++ [.blank] ++ invokeSteps e)]

/-- The function that makes the router. -/
def appSteps (api : Api) (dialect : Dialect) : List Step :=
  (DocComment.ofText ("Creates an Express router that serves " ++ api.service.name ++
      " using the specified service implementation.")).steps ++
    [.braces ("export function createApp(service" ++ dialect.onlyTyped (": " ++ api.interface) ++
        ")" ++ dialect.onlyTyped ": express.Router")
      ([.line "const app = express.Router();", .line "app.use(express.json());"] ++
        api.endpoints.flatMap (fun e => .blank :: routeSteps dialect e) ++
        [.blank, .line "return app;"])]

/-- The slots that a route reads. -/
def readSlots (e : Endpoint) : List Slot :=
  e.pathFields ++ e.queryFields ++ e.requestHeaderFields

/-- The section of the server. -/
def emit (api : Api) (options : Options) : Section where
  imports := [{ default? := some "express", source := "express" }]
  localTypes :=
    api.interface :: api.endpoints.flatMap fun e => e.requestType :: enumNames (readSlots e)
  parsesBoolean := api.endpoints.any fun e => readsBoolean (readSlots e)
  code := errorTable options.dialect ++ [.blank] ++ appSteps api options.dialect

end HttpStubs.Stub.Server

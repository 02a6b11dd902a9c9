import HttpStubs.Code.DocComment
import HttpStubs.Code.TypeExpr
import HttpStubs.Options
import HttpStubs.Stub.Section

/-!
# The client

One class with a method for each endpoint, and a function that makes it. A method checks that the
fields it cannot do without are there, builds URI, body and headers, sends one request, and decodes
the response by the first valid response with its status.
-/

namespace HttpStubs.Stub.Client

open Api (Endpoint PathPart RequestBody Response ResponseBody Slot)
open Code

/-- The object of functions that the runtime package provides for clients. -/
def utility : String := "HttpClientUtility"

/-- The options of a client. -/
def optionsType : String := "IHttpClientOptions"

/-- The expression for a field of the request. -/
def requestField (name : String) : String :=
  propertyAccess "request" name

/-- The entry of a field of `object` in an object literal. -/
def copiedEntry (object : String) (f : Service.Field) : String :=
  propertyKey f.name ++ ": " ++ propertyAccess object f.name

/-! ## Factory and class -/

/-- The function that makes a client. -/
def factory (api : Api) (dialect : Dialect) : List Step :=
  (DocComment.ofDocsOr api.service.docs
      ("Provides access to " ++ api.service.name ++ " over HTTP via fetch.")).steps ++
    [.braces ("export function createHttpClient(\x7b fetch, baseUri \x7d" ++
        dialect.onlyTyped (": " ++ optionsType) ++ ")" ++ dialect.onlyTyped (": " ++ api.interface))
      [.line ("return new " ++ api.clientClass ++ "(fetch, baseUri);")]]

/-- The body field that a request must have. -/
def requiredBodyField? (e : Endpoint) : Option Service.Field :=
  match e.requestBody with
  | .field f => if f.required then some f else none
  | _ => none

/-- Whether a method refuses requests that lack a field. -/
def hasGuard (e : Endpoint) : Bool :=
  !e.pathFields.isEmpty || (requiredBodyField? e).isSome

/-- The functions that the methods call. -/
def utilityFunctions (api : Api) : List String :=
  ["fetchResponse", "createResponseError"] ++
    if api.endpoints.any hasGuard then ["createRequiredRequestFieldError"] else []

/-- The names taken from the runtime package's utility. -/
def utilityBindings (api : Api) (dialect : Dialect) : List Step :=
  .line ("const " ++ braced (utilityFunctions api) ++ " = " ++ utility ++ ";") ::
    if dialect.isTyped then
      [.line ("type IFetch = " ++ utility ++ ".IFetch;"),
        .line ("type IFetchRequest = " ++ utility ++ ".IFetchRequest;")]
    else []

/-- The constructor, which completes the base URI with a slash. -/
def constructorSteps (api : Api) (dialect : Dialect) : List Step :=
  [.braces ("constructor(fetch" ++ dialect.onlyTyped ": IFetch" ++ ", baseUri" ++
      dialect.onlyTyped "?: string" ++ ")")
    [.braces "if (typeof fetch !== 'function')"
      [.line "throw new TypeError('fetch must be a function.');"],
    .braces "if (typeof baseUri === 'undefined')"
      [.line ("baseUri = " ++ literal (api.baseUri.getD "/") ++ ";")],
    .braces "if (/[^\\/]$/.test(baseUri))" [.line "baseUri += '/';"],
    .line "this._fetch = fetch;",
    .line "this._baseUri = baseUri;"]]

/-! ## Building the request -/

/-- The variable that holds a path field as a URI component. -/
def uriVariable (name : String) : String :=
  "uriPart" ++ pascalName name

/-- Answers that a required field is missing. -/
def requiredError (name : String) : Step :=
  .line ("return Promise.resolve(createRequiredRequestFieldError(" ++ literal name ++ "));")

/-- Takes a path field into its variable, and refuses a request without it. -/
def pathGuard (s : Slot) : List Step :=
  [.line ("const " ++ uriVariable s.name ++ " = " ++ requestField s.name ++ " != null && " ++
      s.kind.toUri (requestField s.name) ++ ";"),
    .braces ("if (!" ++ uriVariable s.name ++ ")") [requiredError s.name]]

/-- Refuses a request without its required body field. -/
def bodyGuard (e : Endpoint) : List Step :=
  match requiredBodyField? e with
  | some f => [.braces ("if (" ++ requestField f.name ++ " == null)") [requiredError f.name]]
  | none => []

/-- The parts of a path without the slashes at its start. -/
def relativeParts : List PathPart → List PathPart
  | .text text :: parts => .text (String.ofList (text.toList.dropWhile (· == '/'))) :: parts
  | parts => parts

/-- A part of a path in a template literal. -/
def templatePart : PathPart → String
  | .text text => escapeTemplate text
  | .capture slot => "$\x7b" ++ uriVariable slot.name ++ "\x7d"

/-- The fixed text of a part. -/
def fixedText : PathPart → String
  | .text text => text
  | .capture _ => ""

/-- Whether a part is a capture. -/
def isCapture : PathPart → Bool
  | .text _ => false
  | .capture _ => true

/-- The expression for the URI relative to the base URI: a template literal if there is something to
fill in, otherwise a string literal. -/
def uriExpression (path : List PathPart) : String :=
  let parts := relativeParts path
  if parts.any isCapture then "`" ++ String.join (parts.map templatePart) ++ "`"
  else literal (String.join (parts.map fixedText))

/-- Adds a query field that has a value. -/
def queryStep (s : Slot) : Step :=
  .line (requestField s.name ++ " == null || query.push(" ++ literal (s.wire ++ "=") ++ " + " ++
    s.kind.toUri (requestField s.name) ++ ");")

/-- Builds the URI. -/
def uriSteps (e : Endpoint) (dialect : Dialect) : List Step :=
  if e.queryFields.isEmpty then [.line ("const uri = " ++ uriExpression e.path ++ ";")]
  else
    [.line ("let uri = " ++ uriExpression e.path ++ ";"),
      .line ("const query" ++ dialect.onlyTyped ": string[]" ++ " = [];")] ++
    e.queryFields.map queryStep ++
    [.braces "if (query.length)" [.line "uri = uri + '?' + query.join('&');"]]

/-- The expression for the value that is sent as the body. -/
def bodyExpression? : RequestBody → Option String
  | .none => none
  | .field f => some (requestField f.name)
  | .wholeRequest => some "request"
  | .normal fields => some (braced (fields.map (copiedEntry "request")))

/-- The members of the request for headers and body. -/
def bodySteps (e : Endpoint) : List Step :=
  match bodyExpression? e.requestBody with
  | some body =>
    [.line "headers: \x7b 'Content-Type': 'application/json' \x7d,",
      .line ("body: JSON.stringify(" ++ body ++ "),")]
  | none => if e.requestHeaderFields.isEmpty then [] else [.line "headers: \x7b\x7d,"]

/-- Sets a header from a field that has a value. -/
def headerStep (dialect : Dialect) (s : Slot) : Step :=
  .braces ("if (" ++ requestField s.name ++ " != null)")
    [.line ("fetchRequest.headers" ++ dialect.onlyTyped "!" ++ "[" ++ literal s.wire ++ "] = " ++
      s.kind.toHeader (requestField s.name) ++ ";")]

/-- Builds the request. -/
def requestSteps (e : Endpoint) (dialect : Dialect) : List Step :=
  .block ("const fetchRequest" ++ dialect.onlyTyped ": IFetchRequest" ++ " = \x7b") "\x7d;"
      (.line ("method: " ++ literal e.verb.wire ++ ",") :: bodySteps e) ::
    e.requestHeaderFields.map (headerStep dialect)

/-! ## Decoding the response -/

/-- Sets the value from a response of one shape. -/
def responseSteps (e : Endpoint) (dialect : Dialect) : ResponseBody → List Step
  | .empty => [.line "value = \x7b\x7d;"]
  | .flag f => [.line ("value = " ++ braced [propertyKey f.name ++ ": true"] ++ ";")]
  | .field f =>
    [.braces "if (result.json)"
      [.line ("value = " ++ braced [propertyKey f.name ++ ": result.json"] ++
        dialect.onlyTyped (" as " ++ e.responseType) ++ ";")]]
  | .normal _ =>
    [.braces "if (result.json)"
      [.line ("value = result.json" ++ dialect.onlyTyped (" as " ++ e.responseType ++ " | null") ++
        ";")]]

/-- The test for the status of a response. -/
def statusTest (r : Response) : String :=
  "if (status === " ++ r.status.toNat.repr ++ ") \x7b"

/-- Decodes by status: one chain of tests in the order of the valid responses. -/
def statusChain (e : Endpoint) (dialect : Dialect) : List Response → List Step
  | [] => []
  | r :: rs =>
    .block (statusTest r) "\x7d" (responseSteps e dialect r.body) ::
      rs.map fun r =>
        .chain ("else " ++ statusTest r) "\x7d" (responseSteps e dialect r.body)

/-- Takes a response header over into the value. -/
def responseHeaderSteps (dialect : Dialect) (s : Slot) : List Step :=
  [.line ("headerValue = result.response.headers.get(" ++ literal s.wire ++ ");"),
    .braces "if (headerValue != null)"
      [.line (propertyAccess "value" s.name ++ " = " ++
        s.kind.ofText dialect "headerValue" ++ ";")]]

/-- The response headers that are read: none where no response can set a value. -/
def readHeaders (e : Endpoint) : List Slot :=
  if e.responses.isEmpty then [] else e.responseHeaderFields

/-- Takes the response headers over into the value. -/
def overlaySteps (e : Endpoint) (dialect : Dialect) : List Step :=
  if (readHeaders e).isEmpty then []
  else
    .blank :: .line ("let headerValue" ++ dialect.onlyTyped ": string | null" ++ ";") ::
      (readHeaders e).flatMap (responseHeaderSteps dialect)

/-- Sends the request and decodes the response. -/
def dispatch (e : Endpoint) (dialect : Dialect) : List Step :=
  [.block ("return fetchResponse(this._fetch, this._baseUri + uri, fetchRequest, context)" ++
      ".then(result => \x7b") "\x7d);"
    (.line "const status = result.response.status;" ::
      .line ("let value" ++ dialect.onlyTyped (": " ++ e.responseType ++ " | null") ++
        " = null;") ::
      statusChain e dialect e.responses ++
      [.blank,
        .braces "if (!value)"
          [.line ("return createResponseError(status, result.json)" ++
            dialect.onlyTyped (" as " ++ serviceResult ++ "<" ++ e.responseType ++ ">") ++ ";")]] ++
      overlaySteps e dialect ++
      [.blank, .line "return \x7b value: value \x7d;"])]

/-! ## The section -/

/-- The head of a method. -/
def methodHead (e : Endpoint) (dialect : Dialect) : String :=
  dialect.onlyTyped "public " ++ e.name ++
    "(request" ++ dialect.onlyTyped (": " ++ e.requestType) ++
    ", context" ++ dialect.onlyTyped "?: unknown" ++ ")" ++
    dialect.onlyTyped (": Promise<" ++ serviceResult ++ "<" ++ e.responseType ++ ">>")

/-- The method of an endpoint. -/
def methodSteps (dialect : Dialect) (e : Endpoint) : List Step :=
  (DocComment.ofDocs e.method.docs).steps ++
    [.braces (methodHead e dialect)
      (e.pathFields.flatMap pathGuard ++ bodyGuard e ++ uriSteps e dialect ++
        requestSteps e dialect ++ dispatch e dialect)]

/-- The class. -/
def classSteps (api : Api) (dialect : Dialect) : List Step :=
  [.braces ("class " ++ api.clientClass ++ dialect.onlyTyped (" implements " ++ api.interface))
    (constructorSteps api dialect ++
      api.endpoints.flatMap (fun e => .blank :: methodSteps dialect e) ++
      if dialect.isTyped then
        [.blank, .line "private _fetch: IFetch;", .line "private _baseUri: string;"]
      else [])]

/-- The section of the client. -/
def emit (api : Api) (options : Options) : Section where
  imports :=
    { items := [utility], source := options.runtimePackage } ::
      if options.dialect.isTyped then
        [{ items := [optionsType, serviceResult], source := options.runtimePackage,
           typeOnly := true }]
      else []
  localTypes :=
    api.interface :: api.endpoints.flatMap fun e =>
      e.requestType :: e.responseType :: enumNames (readHeaders e)
  parsesBoolean := api.endpoints.any fun e => readsBoolean (readHeaders e)
  code :=
    factory api options.dialect ++ [.blank] ++ utilityBindings api options.dialect ++ [.blank] ++
      classSteps api options.dialect

end HttpStubs.Stub.Client

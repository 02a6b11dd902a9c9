import Mathlib.Data.List.Basic
import HttpStubs.Proofs.LineLists
import HttpStubs.Proofs.LiteralReading
import HttpStubs.Proofs.ResponseDispatch

/-!
# The lines of response dispatch

The lines that client and server write for the valid responses, at any depth and below any other
lines. The client's are one chain of tests in the order of the responses (`chainLines`), without a
break; read back as a chain (`readChain`) they give each response its branch, so that the first
response with a status is the one that is decoded. The server's are the cases of the responses up to
the first that fits every result (`IsServed`), and each case ends by returning.
-/

namespace HttpStubs.Stub

open Api (Endpoint Response ResponseBody Slot)
open Code
open Code.Writer (allowsBlank indented)

theorem allowsBlank_semicolon (text : String) : allowsBlank [text ++ ";"] := by
  have hlast : (text ++ ";").toList.getLast? = some ';' := by
    rw [String.toList_append, List.getLast?_append]
    rfl
  rw [allowsBlank, List.getLast?_singleton, Option.any_some, Writer.refusesBlank, hlast]
  rfl

theorem allowsBlank_brace (lines : List String) : allowsBlank (lines ++ ["\x7d"]) :=
  Step.allowsBlank_append (by decide)

/-! ## The client -/

namespace Client

/-- The line that tests for a status. -/
def testLine (status : UInt16) : String :=
  "if (status === " ++ status.toNat.repr ++ ") \x7b"

/-- The lines that set the value from a response of one shape. -/
def decodingLines (e : Endpoint) (dialect : Dialect) : ResponseBody → List String
  | .empty => ["value = \x7b\x7d;"]
  | .flag f => ["value = \x7b " ++ propertyKey f.name ++ ": true \x7d;"]
  | .field f =>
    ["if (result.json) \x7b",
      indented 1 ("value = \x7b " ++ propertyKey f.name ++ ": result.json \x7d" ++
        dialect.onlyTyped (" as " ++ e.responseType) ++ ";"),
      "\x7d"]
  | .normal _ =>
    ["if (result.json) \x7b",
      indented 1 ("value = result.json" ++
        dialect.onlyTyped (" as " ++ e.responseType ++ " | null") ++ ";"),
      "\x7d"]

/-- The lines of the chain of tests: each branch but the first starts on the line of the brace that
closes the branch above it. -/
def chainLines (e : Endpoint) (dialect : Dialect) : List Response → List String
  | [] => []
  | r :: rs =>
    testLine r.status :: (decodingLines e dialect r.body).map (indented 1) ++
      rs.flatMap (fun r =>
        ("\x7d else " ++ testLine r.status) :: (decodingLines e dialect r.body).map (indented 1)) ++
      ["\x7d"]

/-- The lines that take a response header over into the value. -/
def responseHeaderLines (dialect : Dialect) (s : Slot) : List String :=
  ["headerValue = result.response.headers.get(" ++ literal s.wire ++ ");",
    "if (headerValue != null) \x7b",
    indented 1 (propertyAccess "value" s.name ++ " = " ++
      s.kind.ofText dialect "headerValue" ++ ";"),
    "\x7d"]

/-- The lines that take the response headers over into the value. -/
def overlayLines (e : Endpoint) (dialect : Dialect) : List String :=
  if (readHeaders e).isEmpty then []
  else
    "" :: ("let headerValue" ++ dialect.onlyTyped ": string | null" ++ ";") ::
      (readHeaders e).flatMap (responseHeaderLines dialect)

/-- The lines that answer a response without a value. -/
def failureLines (e : Endpoint) (dialect : Dialect) : List String :=
  ["if (!value) \x7b",
    indented 1 ("return createResponseError(status, result.json)" ++
      dialect.onlyTyped (" as " ++ serviceResult ++ "<" ++ e.responseType ++ ">") ++ ";"),
    "\x7d"]

/-- The line that sends the request. -/
def transportLine : String :=
  "return fetchResponse(this._fetch, this._baseUri + uri, fetchRequest, context)" ++
    ".then(result => \x7b"

/-- The lines in front of the chain. -/
def statusLines (e : Endpoint) (dialect : Dialect) : List String :=
  ["const status = result.response.status;",
    "let value" ++ dialect.onlyTyped (": " ++ e.responseType ++ " | null") ++ " = null;"]

/-- The lines that send the request and decode the response. -/
def dispatchLines (e : Endpoint) (dialect : Dialect) : List String :=
  transportLine ::
    (statusLines e dialect ++ chainLines e dialect e.responses ++ "" :: failureLines e dialect ++
      overlayLines e dialect ++ ["", "return \x7b value: value \x7d;"]).map (indented 1) ++
    ["\x7d);"]

theorem startsLine_responseSteps (e : Endpoint) (dialect : Dialect) (body : ResponseBody) :
    Step.startsLine (responseSteps e dialect body) := by
  cases body <;> rfl

theorem lineList_responseSteps (e : Endpoint) (dialect : Dialect) (body : ResponseBody) :
    Step.lineList (responseSteps e dialect body) = decodingLines e dialect body := by
  cases body with
  | empty =>
    rw [responseSteps, Step.lineList_line]
    rfl
  | flag f =>
    rw [responseSteps, Step.lineList_line, decodingLines]
    simp [braced, ← String.toList_inj]
  | field f =>
    have hvalue : "value = " ++ braced [propertyKey f.name ++ ": result.json"] =
        "value = \x7b " ++ propertyKey f.name ++ ": result.json \x7d" := by
      simp [braced, ← String.toList_inj]
    rw [responseSteps, Step.braces, Step.lineList_block _ _ (.inr rfl), Step.lineList_line, hvalue]
    rfl
  | normal fields =>
    rw [responseSteps, Step.braces, Step.lineList_block _ _ (.inr rfl), Step.lineList_line]
    rfl

/-- The first branch of the chain, and the branches that continue it. -/
theorem statusChain_cons (e : Endpoint) (dialect : Dialect) (r : Response) (rs : List Response) :
    statusChain e dialect (r :: rs) =
      .block (testLine r.status) "\x7d" (responseSteps e dialect r.body) ::
        Step.branches (rs.map fun r =>
          ("else " ++ testLine r.status, responseSteps e dialect r.body)) := by
  delta testLine
  rw [statusChain, Step.branches, List.map_map]
  rfl

/-- The chain below lines and blocks. -/
theorem lineList_statusChain (e : Endpoint) (dialect : Dialect) {front : List Step}
    (hfront : Step.Solid front) (rs : List Response) :
    Step.lineList (front ++ statusChain e dialect rs) =
      Step.lineList front ++ chainLines e dialect rs := by
  cases rs with
  | nil => simp [statusChain, chainLines]
  | cons r rs =>
    have hbranches : ∀ b ∈ rs.map fun r =>
        ("else " ++ testLine r.status, responseSteps e dialect r.body), Step.startsLine b.2 := by
      intro b hb
      obtain ⟨r, -, rfl⟩ := List.mem_map.1 hb
      exact startsLine_responseSteps e dialect r.body
    have helse : ∀ status, "\x7d " ++ ("else " ++ testLine status) =
        "\x7d else " ++ testLine status := by
      intro status
      rw [← String.append_assoc]
      rfl
    rw [statusChain_cons, Step.lineList_chain hfront _ (startsLine_responseSteps e dialect r.body)
      hbranches, chainLines, Step.branchLines, lineList_responseSteps]
    simp [List.flatMap_map, lineList_responseSteps, helse]

theorem solid_responseHeaderSteps (dialect : Dialect) (s : Slot) :
    Step.Solid (responseHeaderSteps dialect s) := by
  simp [responseHeaderSteps]

theorem lineList_responseHeaderSteps (dialect : Dialect) (s : Slot) :
    Step.lineList (responseHeaderSteps dialect s) = responseHeaderLines dialect s := by
  rw [responseHeaderSteps, Step.lineList_cons rfl (by simp)]
  simp [responseHeaderLines]

/-- The last line of the header values allows a blank line. -/
theorem allowsBlank_headers (dialect : Dialect) (text : String) (headers : List Slot) :
    allowsBlank ((text ++ ";") :: headers.flatMap (responseHeaderLines dialect)) := by
  rcases List.eq_nil_or_concat headers with rfl | ⟨headers, s, rfl⟩
  · exact allowsBlank_semicolon text
  · rw [List.concat_eq_append, List.flatMap_append, ← List.cons_append, List.flatMap_singleton]
    exact Step.allowsBlank_append (allowsBlank_brace [_, _, _])

/-- The step for a response without a value. -/
def failureStep (e : Endpoint) (dialect : Dialect) : Step :=
  .braces "if (!value)"
    [.line ("return createResponseError(status, result.json)" ++
      dialect.onlyTyped (" as " ++ serviceResult ++ "<" ++ e.responseType ++ ">") ++ ";")]

/-- The lines below the chain. -/
theorem lineList_outcome (e : Endpoint) (dialect : Dialect) :
    Step.lineList (failureStep e dialect :: overlaySteps e dialect ++
        [.blank, .line "return \x7b value: value \x7d;"]) =
      failureLines e dialect ++ overlayLines e dialect ++
        ["", "return \x7b value: value \x7d;"] := by
  have hfailure : Step.lineList [failureStep e dialect] = failureLines e dialect := by
    rw [failureStep, Step.lineList_braces_line]
    rfl
  have hallowed : allowsBlank (failureLines e dialect) := allowsBlank_brace [_, _]
  have hreturn : Step.startsLine [.line "return \x7b value: value \x7d;"] := rfl
  unfold overlaySteps overlayLines
  split_ifs
  · rw [List.append_nil, Step.lineList_blank hreturn (hfailure ▸ hallowed), hfailure,
      Step.lineList_line]
  · have hheaders : Step.Solid ((readHeaders e).flatMap (responseHeaderSteps dialect)) :=
      Step.solid_flatMap.2 fun s _ => solid_responseHeaderSteps dialect s
    have hlines := @Step.lineList_cons (.line ("let headerValue" ++
      dialect.onlyTyped ": string | null" ++ ";")) _ rfl hheaders
    rw [Step.lineList_line, Step.lineList_flatMap fun s _ => solid_responseHeaderSteps dialect s]
      at hlines
    simp only [lineList_responseHeaderSteps] at hlines
    rw [List.cons_append, List.cons_append, ← List.singleton_append,
      Step.lineList_blank rfl (hfailure ▸ hallowed), hfailure, Step.lineList_blank hreturn, hlines,
      Step.lineList_line]
    · simp
    · rw [hlines]
      exact allowsBlank_headers dialect _ _

/-- What a chain or the lines in front of it leave as the last line allows a blank line. -/
theorem allowsBlank_chainLines (e : Endpoint) (dialect : Dialect) (rs : List Response) :
    allowsBlank (statusLines e dialect ++ chainLines e dialect rs) := by
  cases rs with
  | nil =>
    have hvalue : allowsBlank ["let value" ++
        dialect.onlyTyped (": " ++ e.responseType ++ " | null") ++ " = null;"] := by
      have hsplit : " = null;" = " = null" ++ ";" := rfl
      rw [hsplit, ← String.append_assoc]
      exact allowsBlank_semicolon _
    exact @Step.allowsBlank_append [_] _ hvalue
  | cons r rs => exact Step.allowsBlank_append (allowsBlank_brace _)

/-- The steps in front of the chain. -/
def statusSteps (e : Endpoint) (dialect : Dialect) : List Step :=
  [.line "const status = result.response.status;",
    .line ("let value" ++ dialect.onlyTyped (": " ++ e.responseType ++ " | null") ++ " = null;")]

theorem dispatch_eq (e : Endpoint) (dialect : Dialect) :
    dispatch e dialect = [.block transportLine "\x7d);"
      (statusSteps e dialect ++ statusChain e dialect e.responses ++
        .blank :: (failureStep e dialect :: overlaySteps e dialect ++
          [.blank, .line "return \x7b value: value \x7d;"]))] := by
  delta dispatch statusSteps failureStep transportLine
  simp only [List.append_assoc, List.cons_append, List.nil_append]

/-- The lines of the dispatch. -/
theorem lineList_dispatch (e : Endpoint) (dialect : Dialect) :
    Step.lineList (dispatch e dialect) = dispatchLines e dialect := by
  have hsolid : Step.Solid (statusSteps e dialect) := by simp [statusSteps]
  have hstatus : Step.lineList (statusSteps e dialect) = statusLines e dialect := by
    rw [Step.lineList_solid hsolid]
    simp [statusSteps, statusLines]
  have hchain := lineList_statusChain e dialect hsolid e.responses
  rw [hstatus] at hchain
  rw [dispatch_eq, Step.lineList_block _ _ (.inr rfl), Step.lineList_blank rfl
    (hchain ▸ allowsBlank_chainLines e dialect e.responses), hchain, lineList_outcome,
    dispatchLines]
  simp only [List.append_assoc, List.cons_append]

/-! ### Reading the chain -/

/-- The branches of a chain, each with its test and its lines; `test` and `body` are the test of the
branch that is being read and its lines so far, the last first. -/
def readBranches (test : String) (body : List String) : List String → List (String × List String)
  | [] => []
  | l :: ls =>
    if l = "\x7d" then [(test, body.reverse)]
    else
      match after? "\x7d else " l with
      | some next => (test, body.reverse) :: readBranches (String.ofList next) [] ls
      | none => readBranches test (l :: body) ls

/-- The branches of the chain that the lines begin with. -/
def readChain : List String → List (String × List String)
  | [] => []
  | test :: ls => readBranches test [] ls

/-- The lines that are run for a status: those of the first branch that tests for it. -/
def linesFor (status : UInt16) (ls : List String) : Option (List String) :=
  ((readChain ls).find? (·.1 == testLine status)).map (·.2)

/-- Indented lines belong to the branch that is being read. -/
theorem readBranches_indented (test : String) {body lines : List String} (h : "" ∉ lines)
    (rest : List String) :
    readBranches test body (lines.map (indented 1) ++ rest) =
      readBranches test ((lines.map (indented 1)).reverse ++ body) rest := by
  induction lines generalizing body with
  | nil => rfl
  | cons l lines ih =>
    rw [List.mem_cons, not_or] at h
    have hindented : indented 1 l = "\t" ++ l := Writer.indented_of_ne (Ne.symm h.1)
    have hbrace : indented 1 l ≠ "\x7d" := by
      rw [hindented, ← String.toList_inj.ne]
      simp
    have helse : after? "\x7d else " (indented 1 l) = none := by
      rw [hindented, after?, if_neg (by simp)]
    rw [List.map_cons, List.cons_append, readBranches, if_neg hbrace, helse]
    simp only
    rw [ih h.2, List.reverse_cons, List.append_assoc]
    rfl

theorem readBranches_else (test : String) (body : List String) (next : String)
    (rest : List String) :
    readBranches test body (("\x7d else " ++ next) :: rest) =
      (test, body.reverse) :: readBranches next [] rest := by
  have hbrace : "\x7d else " ++ next ≠ "\x7d" := by
    rw [← String.toList_inj.ne]
    simp
  rw [readBranches, if_neg hbrace, after?_append]
  simp only [String.ofList_toList]

theorem empty_not_mem_decodingLines (e : Endpoint) (dialect : Dialect) (body : ResponseBody) :
    "" ∉ decodingLines e dialect body := by
  cases body <;> simp [decodingLines]

/-- The chain of some responses is read back branch by branch, whatever follows it. -/
theorem readChain_chainLines (e : Endpoint) (dialect : Dialect) {rs : List Response} (h : rs ≠ [])
    (after : List String) :
    readChain (chainLines e dialect rs ++ after) =
      rs.map fun r => (testLine r.status, (decodingLines e dialect r.body).map (indented 1)) := by
  have hnext : ∀ (test : String) (body : ResponseBody) (rs : List Response),
      readBranches test [] ((decodingLines e dialect body).map (indented 1) ++
        (rs.flatMap (fun r => ("\x7d else " ++ testLine r.status) ::
          (decodingLines e dialect r.body).map (indented 1)) ++ "\x7d" :: after)) =
      (test, (decodingLines e dialect body).map (indented 1)) ::
        rs.map fun r => (testLine r.status, (decodingLines e dialect r.body).map (indented 1)) := by
    intro test body rs
    induction rs generalizing test body with
    | nil =>
      rw [readBranches_indented test (empty_not_mem_decodingLines e dialect body),
        List.flatMap_nil, List.nil_append, readBranches, if_pos rfl]
      simp
    | cons r rs ih =>
      rw [readBranches_indented test (empty_not_mem_decodingLines e dialect body),
        List.flatMap_cons, List.cons_append, List.cons_append, readBranches_else,
        List.append_assoc, ih, List.map_cons]
      simp
  cases rs with
  | nil => exact absurd rfl h
  | cons r rs =>
    rw [chainLines, List.cons_append, List.cons_append, List.cons_append, readChain,
      List.append_assoc, List.append_assoc, List.singleton_append, hnext, List.map_cons]

theorem testLine_inj {status status' : UInt16} :
    testLine status = testLine status' ↔ status = status' :=
  statusTest_eq_iff (r := ⟨status, .empty⟩)

/-- The lines that are run for a status are those of the first response with the status. -/
theorem linesFor_chainLines (e : Endpoint) (dialect : Dialect) {rs : List Response} (h : rs ≠ [])
    (after : List String) (status : UInt16) :
    linesFor status (chainLines e dialect rs ++ after) =
      (rs.find? (·.status == status)).map fun r =>
        (decodingLines e dialect r.body).map (indented 1) := by
  have htest : (fun r : Response => testLine r.status == testLine status) = (·.status == status) :=
    funext fun r => by rw [Bool.eq_iff_iff, beq_iff_eq, beq_iff_eq, testLine_inj]
  rw [linesFor, readChain_chainLines e dialect h, List.find?_map, Option.map_map]
  simp only [Function.comp_def, htest]

end Client

/-! ## The server -/

namespace Server

/-- The response is sent for every result. -/
def FitsEvery (r : Response) : Prop :=
  r.body = .empty ∨ ∃ fields, r.body = .normal fields

/-- The responses that are served: those up to and including the first that fits every result, or
all if none does. -/
def IsServed (responses served : List Response) : Prop :=
  ∃ rest, responses = served ++ rest ∧ (∀ r ∈ served.dropLast, ¬FitsEvery r) ∧
    (rest = [] ∨ ∃ r, served.getLast? = some r ∧ FitsEvery r)

/-- The lines that send a response. -/
def sendingLines (r : Response) : List String :=
  match r.body with
  | .empty => ["res.sendStatus(" ++ r.status.toNat.repr ++ ");", "return;"]
  | .flag f =>
    ["if (" ++ resultField f.name ++ ") \x7b",
      indented 1 ("res.sendStatus(" ++ r.status.toNat.repr ++ ");"),
      indented 1 "return;",
      "\x7d"]
  | .field f =>
    ["if (" ++ resultField f.name ++ " != null) \x7b",
      indented 1 ("res.status(" ++ r.status.toNat.repr ++ ").send(" ++ resultField f.name ++ ");"),
      indented 1 "return;",
      "\x7d"]
  | .normal fields =>
    ["res.status(" ++ r.status.toNat.repr ++ ").send(" ++
        braced (fields.map fun f => propertyKey f.name ++ ": " ++ resultField f.name) ++ ");",
      "return;"]

/-- The lines that set a response header. -/
def responseHeaderLines (s : Slot) : List String :=
  ["if (" ++ resultField s.name ++ " != null) \x7b",
    indented 1 ("res.setHeader(" ++ literal s.wire ++ ", " ++
      s.kind.toHeader (resultField s.name) ++ ");"),
    "\x7d"]

/-- The lines that send an error. -/
def errorLines : List String :=
  ["const code = result.error.code;",
    "const status = code && Object.prototype.hasOwnProperty.call(standardErrorCodes, code)" ++
      " ? standardErrorCodes[code] : 500;",
    "res.status(status).send(result.error);",
    "return;"]

/-- The lines that call the service and send the first of the served responses that fits. -/
def invokeLines (e : Endpoint) (served : List Response) : List String :=
  ("return service." ++ e.name ++ "(request).then(result => \x7b") ::
    ("if (result.error) \x7b" :: errorLines.map (indented 1) ++
      "\x7d" :: "if (result.value) \x7b" ::
        (e.responseHeaderFields.flatMap responseHeaderLines ++
          served.flatMap sendingLines).map (indented 1) ++
      ["\x7d", "throw new Error('Result must have an error or value.');"]).map (indented 1) ++
    ["\x7d).catch(next);"]

theorem not_fitsEvery_iff {r : Response} : r.body.isUnconditional = false ↔ ¬FitsEvery r := by
  unfold FitsEvery
  cases r.body <;> simp [ResponseBody.isUnconditional]

theorem reachable_ne_nil {rs : List Response} (h : rs ≠ []) : reachable rs ≠ [] := by
  cases rs with
  | nil => exact absurd rfl h
  | cons r rs =>
    rw [reachable]
    split_ifs <;> simp

theorem isServed_reachable (rs : List Response) : IsServed rs (reachable rs) := by
  induction rs with
  | nil => exact ⟨[], rfl, by simp [reachable], .inl rfl⟩
  | cons r rs ih =>
    rw [reachable]
    split_ifs with hfits
    · refine ⟨rs, rfl, by simp, .inr ⟨r, rfl, ?_⟩⟩
      by_contra hnot
      rw [not_fitsEvery_iff.2 hnot] at hfits
      cases hfits
    · obtain ⟨rest, hrest, hearlier, hlast⟩ := ih
      have hr : ¬FitsEvery r := not_fitsEvery_iff.1 (by simpa using hfits)
      cases hserved : reachable rs with
      | nil =>
        have hnil : rs = [] := by_contra fun hne => reachable_ne_nil hne hserved
        exact ⟨[], by rw [hnil]; rfl, by simp, .inl rfl⟩
      | cons r' served =>
        rw [hserved] at hrest hearlier hlast
        refine ⟨rest, by rw [hrest]; rfl, ?_, ?_⟩
        · rw [List.dropLast_cons_of_ne_nil (by simp), List.forall_mem_cons]
          exact ⟨hr, hearlier⟩
        · rwa [List.getLast?_cons_cons]

theorem solid_responseSteps (r : Response) : Step.Solid (responseSteps r) := by
  unfold responseSteps
  cases r.body <;> simp

theorem lineList_responseSteps (r : Response) :
    Step.lineList (responseSteps r) = sendingLines r := by
  -- A case is two lines, in a block if it depends on the result.
  have hlines : ∀ text text', Step.lineList [.line text, .line text'] = [text, text'] :=
    fun text text' => Step.lineList_map_line [text, text']
  have hblock : ∀ head text text', Step.lineList [.braces head [.line text, .line text']] =
      [head ++ " \x7b", indented 1 text, indented 1 text', "\x7d"] := by
    intro head text text'
    rw [Step.lineList_braces head (by simp), hlines]
    rfl
  have hhead : ∀ front : String, front ++ ")" ++ " \x7b" = front ++ ") \x7b" := by
    intro front
    rw [String.append_assoc]
    rfl
  have hguard : ∀ front : String, front ++ " != null)" ++ " \x7b" = front ++ " != null) \x7b" := by
    intro front
    rw [String.append_assoc]
    rfl
  unfold responseSteps sendingLines
  cases r.body with
  | empty => exact hlines _ _
  | flag f => simp only [hblock, hhead]
  | field f => simp only [hblock, hguard]
  | normal fields => exact hlines _ _

theorem lineList_responseHeaderStep (s : Slot) :
    Step.lineList [responseHeaderStep s] = responseHeaderLines s := by
  have hhead : "if (" ++ resultField s.name ++ " != null)" ++ " \x7b" =
      "if (" ++ resultField s.name ++ " != null) \x7b" := by
    rw [String.append_assoc]
    rfl
  rw [responseHeaderStep, Step.lineList_braces_line, hhead]
  rfl

/-- The lines for a result that has a value. -/
theorem lineList_valueSteps (e : Endpoint) :
    Step.Solid (e.responseHeaderFields.map responseHeaderStep ++
        (reachable e.responses).flatMap responseSteps) ∧
      Step.lineList (e.responseHeaderFields.map responseHeaderStep ++
          (reachable e.responses).flatMap responseSteps) =
        e.responseHeaderFields.flatMap responseHeaderLines ++
          (reachable e.responses).flatMap sendingLines := by
  have hheaders : Step.Solid (e.responseHeaderFields.map responseHeaderStep) := by
    simp [responseHeaderStep]
  have hcases : Step.Solid ((reachable e.responses).flatMap responseSteps) :=
    Step.solid_flatMap.2 fun r _ => solid_responseSteps r
  refine ⟨Step.solid_append.2 ⟨hheaders, hcases⟩, ?_⟩
  rw [Step.lineList_append hheaders hcases, Step.lineList_solid hheaders, List.flatMap_map,
    Step.lineList_flatMap fun r _ => solid_responseSteps r]
  simp only [lineList_responseHeaderStep, lineList_responseSteps]

/-- The lines of the call of the service. -/
theorem lineList_invokeSteps (e : Endpoint) :
    Step.lineList (invokeSteps e) = invokeLines e (reachable e.responses) := by
  obtain ⟨hsolid, hvalue⟩ := lineList_valueSteps e
  have herror : Step.lineList [.braces "if (result.error)" errorSteps] =
      "if (result.error) \x7b" :: errorLines.map (indented 1) ++ ["\x7d"] := by
    have hsteps : errorSteps = errorLines.map .line := rfl
    rw [hsteps, Step.lineList_braces _ (by simp),
      Step.lineList_map_line]
    rfl
  have hblock := Step.lineList_braces "if (result.value)" hsolid
  rw [hvalue] at hblock
  rw [invokeSteps, Step.lineList_block _ _ (.inr rfl),
    Step.lineList_solid (by simp)]
  simp only [List.flatMap_cons, List.flatMap_nil, herror, hblock, Step.lineList_line]
  simp [invokeLines]

theorem sendingLines_return (r : Response) :
    ∃ front, sendingLines r = front ++ ["return;"] ∨
      sendingLines r = front ++ [indented 1 "return;", "\x7d"] := by
  unfold sendingLines
  cases r.body with
  | empty => exact ⟨[_], .inl rfl⟩
  | flag f => exact ⟨[_, _], .inr rfl⟩
  | field f => exact ⟨[_, _], .inr rfl⟩
  | normal fields => exact ⟨[_], .inl rfl⟩

end Server

/-! ## Client and server -/

/-- Below any lines and at any depth, the client writes one unbroken chain with a branch for each
valid response in order, and the lines that are run for a status are those of the first response
with it. The server writes the cases of the served responses in order, each of which ends by
returning. -/
theorem responses_emitted_in_order (e : Endpoint) (nonempty : e.responses ≠ []) (dialect : Dialect)
    (w : Writer) :
    (Step.runAll (Client.dispatch e dialect) w).written.reverse =
        w.flushBlank.written.reverse ++ (Client.dispatchLines e dialect).map (indented w.depth) ∧
      (∀ status after, Client.linesFor status (Client.chainLines e dialect e.responses ++ after) =
        (e.responses.find? (·.status == status)).map fun r =>
          (Client.decodingLines e dialect r.body).map (indented 1)) ∧
      ∃ served, Server.IsServed e.responses served ∧
        (Step.runAll (Server.invokeSteps e) w).written.reverse =
          w.flushBlank.written.reverse ++ (Server.invokeLines e served).map (indented w.depth) ∧
        ∀ r ∈ served, ∃ front, Server.sendingLines r = front ++ ["return;"] ∨
          Server.sendingLines r = front ++ [indented 1 "return;", "\x7d"] := by
  have hplaced : ∀ {steps lines}, Step.startsLine steps → Step.lineList steps = lines →
      (Step.runAll steps w).written.reverse =
        w.flushBlank.written.reverse ++ lines.map (indented w.depth) := by
    rintro steps lines hstarts rfl
    rw [Step.written_of_startsLine hstarts, List.reverse_append, ← List.map_reverse]
    rfl
  refine ⟨hplaced rfl (Client.lineList_dispatch e dialect),
    fun status after => Client.linesFor_chainLines e dialect nonempty after status,
    Server.reachable e.responses, Server.isServed_reachable e.responses,
    hplaced rfl (Server.lineList_invokeSteps e), fun r _ => Server.sendingLines_return r⟩

/-- A method with a valid response of each shape, one of them behind a response that fits every
result, and one with a status that an earlier response has. -/
def shapesEndpoint : Endpoint where
  method := {
    name := "getWidget"
    responseFields := [{ name := "widget", type := .dto "Widget" },
      { name := "not-modified", type := .boolean }] }
  verb := .get
  path := [.text "/widget"]
  pathFields := []
  queryFields := []
  requestHeaderFields := []
  requestBody := .none
  responseHeaderFields := []
  responses := [
    ⟨200, .field { name := "widget", type := .dto "Widget" }⟩,
    ⟨304, .flag { name := "not-modified", type := .boolean }⟩,
    ⟨304, .empty⟩,
    ⟨202, .normal [{ name := "widget", type := .dto "Widget" }]⟩]

/-- The flag is the first response with status 304, and the last response is not served. -/
theorem shapes_emitted_in_order :
    shapesEndpoint.responses ≠ [] ∧
      Client.linesFor 304 (Client.chainLines shapesEndpoint .javaScript shapesEndpoint.responses) =
        some [indented 1 ("value = \x7b " ++ propertyKey "not-modified" ++ ": true \x7d;")] ∧
      ∃ served, Server.IsServed shapesEndpoint.responses served ∧
        (Step.runAll (Server.invokeSteps shapesEndpoint) {}).written.reverse =
          (Server.invokeLines shapesEndpoint served).map (indented 0) := by
  obtain ⟨-, hfirst, served, hserved, hlines, -⟩ :=
    responses_emitted_in_order shapesEndpoint (by decide) .javaScript {}
  refine ⟨by decide, ?_, served, hserved, hlines⟩
  have hfirst := hfirst 304 []
  rw [List.append_nil] at hfirst
  rw [hfirst]
  rfl

end HttpStubs.Stub

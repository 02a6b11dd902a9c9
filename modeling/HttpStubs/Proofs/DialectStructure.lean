import Mathlib.Data.List.Basic
import HttpStubs.Proofs.ArtifactPlans
import HttpStubs.Proofs.Placement
import HttpStubs.Proofs.TypeErasure

/-!
# The structure of the dialects

The server and the methods of the client are the same code in both dialects, type fragments apart.
The fragments of each are listed in the order in which they stand (`Server.typeFragments`,
`Client.typeFragments`), so that nothing else is deleted. The class around the methods has lines
that only one dialect has; its lines are cut into those before, of and behind the methods.
-/

namespace HttpStubs

open Code
open Api (Endpoint Response ResponseBody Scalar Slot)

namespace Stub

/-- The fragments of the expression that reads a slot: a cast to its enum. -/
def castFragments (s : Slot) : List TypeFragment :=
  s.kind.enumName?.toList.map .cast

theorem erases_ofText (s : Slot) (text : String) :
    Erases (castFragments s) (s.kind.ofText .typeScript text)
      (s.kind.ofText .javaScript text) := by
  unfold castFragments
  cases s.kind with
  | enum name => exact (Erases.onlyTyped [.cast name] (by simp [TypeFragment.text])).preceded text
  | _ => exact .refl _

theorem startsPlain_propertyAccess {object : String} (h : startsPlain object) (name : String) :
    startsPlain (propertyAccess object name) := by
  unfold propertyAccess
  split_ifs
  · exact startsPlain_append (startsPlain_append h _) _
  · exact startsPlain_append (startsPlain_append (startsPlain_append h _) _) _

/-- An assignment of what is read from a slot. -/
theorem textErases_assignment (s : Slot) {target : String} (text : String)
    (start : startsPlain target) :
    TextErases (castFragments s) (target ++ " = " ++ s.kind.ofText .typeScript text ++ ";")
      (target ++ " = " ++ s.kind.ofText .javaScript text ++ ";") := by
  have hstart := startsPlain_append start " = "
  exact .of_end ((erases_ofText s text).preceded _) (startsPlain_append hstart _) (by decide)

/-! ## The server -/

namespace Server

/-- The fragments of the code that reads the request headers. -/
def headerFragments (e : Endpoint) : List TypeFragment :=
  if e.requestHeaderFields.isEmpty then []
  else [.ascription "string | undefined"] ++ e.requestHeaderFields.flatMap castFragments

/-- The fragments of a route. -/
def routeFragments (e : Endpoint) : List TypeFragment :=
  [.ascription e.requestType] ++ e.pathFields.flatMap castFragments ++
    e.queryFields.flatMap castFragments ++ headerFragments e

/-- The fragments of the server, in order. -/
def typeFragments (api : Api) : List TypeFragment :=
  [.ascription "\x7b [code: string]: number \x7d"] ++
    ([.ascription api.interface, .ascription "express.Router"] ++
      api.endpoints.flatMap routeFragments)

theorem startsPlain_requestField (name : String) : startsPlain (requestField name) :=
  startsPlain_propertyAccess (by decide) name

theorem stepsErase_path (s : Slot) :
    StepsErase (castFragments s) [pathStep .typeScript s] [pathStep .javaScript s] :=
  .line (textErases_assignment s _ (startsPlain_requestField _))

theorem stepsErase_query (s : Slot) :
    StepsErase (castFragments s) [queryStep .typeScript s] [queryStep .javaScript s] :=
  .block_body _ _ (.line (textErases_assignment s _ (startsPlain_requestField _)))

theorem stepsErase_header (s : Slot) :
    StepsErase (castFragments s) (headerSteps .typeScript s) (headerSteps .javaScript s) :=
  .preceded [_] (.block_body _ _ (.line (textErases_assignment s _ (startsPlain_requestField _))))

theorem stepsErase_request (e : Endpoint) :
    StepsErase (routeFragments e) (requestSteps e .typeScript) (requestSteps e .javaScript) := by
  unfold routeFragments requestSteps
  refine .append (.followed (.append (.cons (.line ?_) (.map _ stepsErase_path))
    (.map _ stepsErase_query)) (bodySteps e)) ?_
  · exact .typed _ (by simp [TypeFragment.text]) (by decide) (by decide)
  · unfold headerFragments
    split_ifs
    · exact .refl []
    · refine .cons (.line ?_) (.flatMap _ stepsErase_header)
      exact .typed _ (by simp [TypeFragment.text]) (by decide) (by decide)

theorem stepsErase_route (e : Endpoint) :
    StepsErase (routeFragments e) (.blank :: routeSteps .typeScript e)
      (.blank :: routeSteps .javaScript e) :=
  .preceded [.blank] (.preceded _ (.block_body _ _
    (((stepsErase_request e).followed [.blank]).followed (invokeSteps e))))

theorem erases_appHead (interface : String) :
    Erases [.ascription interface, .ascription "express.Router"]
      ("export function createApp(service" ++ Dialect.typeScript.onlyTyped (": " ++ interface) ++
        ")" ++ Dialect.typeScript.onlyTyped ": express.Router")
      ("export function createApp(service" ++ Dialect.javaScript.onlyTyped (": " ++ interface) ++
        ")" ++ Dialect.javaScript.onlyTyped ": express.Router") :=
  (((Erases.onlyTyped [_] (by simp [TypeFragment.text])).preceded _).followed _).append
    (.onlyTyped [_] (by simp [TypeFragment.text]))

theorem stepsErase_emit (api : Api) (options : Options) :
    StepsErase (typeFragments api) (emit api { options with dialect := .typeScript }).code
      (emit api { options with dialect := .javaScript }).code := by
  refine .append (.followed (.block_head ?_ _ _) [.blank]) (.preceded _ (.block ?_ _ ?_))
  · exact .typed _ (by simp [TypeFragment.text]) (by decide) (by decide)
  · exact .of_end (erases_appHead api.interface) (by simp [startsPlain]) (by decide)
  · exact .followed (.preceded [_, _] (.flatMap _ stepsErase_route)) _

end Server

/-! ## The methods of the client -/

namespace Client

/-- The fragments of a method's head. -/
def headFragments (e : Endpoint) : List TypeFragment :=
  [.visibility] ++ [.ascription e.requestType] ++ [.optional, .ascription "unknown"] ++
    [.ascription ("Promise<" ++ serviceResult ++ "<" ++ e.responseType ++ ">>")]

/-- The fragments of the code that builds the URI. -/
def uriFragments (e : Endpoint) : List TypeFragment :=
  if e.queryFields.isEmpty then [] else [.ascription "string[]"]

/-- The fragments of the code that builds the request. -/
def requestFragments (e : Endpoint) : List TypeFragment :=
  [.ascription "IFetchRequest"] ++ e.requestHeaderFields.flatMap fun _ => [.nonNull]

/-- The fragments of the code that decodes a response. -/
def responseFragments (e : Endpoint) : ResponseBody → List TypeFragment
  | .empty | .flag _ => []
  | .field _ => [.cast e.responseType]
  | .normal _ => [.cast (e.responseType ++ " | null")]

/-- The fragments of the code that takes over response headers. -/
def overlayFragments (e : Endpoint) : List TypeFragment :=
  if (readHeaders e).isEmpty then []
  else [.ascription "string | null"] ++ (readHeaders e).flatMap castFragments

/-- The fragments of the code that sends the request and decodes the response. -/
def dispatchFragments (e : Endpoint) : List TypeFragment :=
  [.ascription (e.responseType ++ " | null")] ++
    e.responses.flatMap (fun r => responseFragments e r.body) ++
    [.cast (serviceResult ++ "<" ++ e.responseType ++ ">")] ++ overlayFragments e

/-- The fragments of a method, in order. -/
def typeFragments (e : Endpoint) : List TypeFragment :=
  headFragments e ++ (uriFragments e ++ requestFragments e ++ dispatchFragments e)

theorem erases_head (e : Endpoint) :
    Erases (headFragments e) (methodHead e .typeScript) (methodHead e .javaScript) := by
  have hresult : String.join ([TypeFragment.ascription
      ("Promise<" ++ serviceResult ++ "<" ++ e.responseType ++ ">>")].map TypeFragment.text) =
      ": Promise<" ++ serviceResult ++ "<" ++ e.responseType ++ ">>" := by
    rw [← String.toList_inj]
    simp [TypeFragment.text]
  have hvisibility := Erases.onlyTyped [.visibility] rfl
  have hrequest := Erases.onlyTyped [.ascription e.requestType] rfl
  have hcontext := Erases.onlyTyped [.optional, .ascription "unknown"] rfl
  exact ((((((hvisibility.followed _).followed _).append hrequest).followed _).append
    hcontext).followed _).append (.onlyTyped _ hresult)

theorem stepsErase_uri (e : Endpoint) :
    StepsErase (uriFragments e) (uriSteps e .typeScript) (uriSteps e .javaScript) := by
  unfold uriFragments uriSteps
  split_ifs
  · exact .refl _
  · refine .followed (.followed (.preceded [_] (.line ?_)) _) _
    exact .typed _ (by simp [TypeFragment.text]) (by decide) (by decide)

theorem stepsErase_header (s : Slot) :
    StepsErase [.nonNull] [headerStep .typeScript s] [headerStep .javaScript s] := by
  have hheaders : Erases [.nonNull]
      ("fetchRequest.headers" ++ Dialect.typeScript.onlyTyped "!" ++ "[" ++ literal s.wire ++
        "] = " ++ s.kind.toHeader (requestField s.name))
      ("fetchRequest.headers" ++ Dialect.javaScript.onlyTyped "!" ++ "[" ++ literal s.wire ++
        "] = " ++ s.kind.toHeader (requestField s.name)) :=
    (((((Erases.onlyTyped _ (by simp [TypeFragment.text])).preceded _).followed _).followed
      _).followed _).followed _
  exact .block_body _ _ (.line (.of_end hheaders (by simp [startsPlain]) (by decide)))

theorem stepsErase_request (e : Endpoint) :
    StepsErase (requestFragments e) (requestSteps e .typeScript) (requestSteps e .javaScript) := by
  refine .cons (.block_head ?_ _ _) (.map _ stepsErase_header)
  exact .typed _ (by simp [TypeFragment.text]) (by decide) (by decide)

theorem stepsErase_response (e : Endpoint) (body : ResponseBody) :
    StepsErase (responseFragments e body) (responseSteps e .typeScript body)
      (responseSteps e .javaScript body) := by
  cases body with
  | empty => exact .refl _
  | flag f => exact .refl _
  | field f =>
    refine .block_body _ _ (.line (.typed [.cast e.responseType] ?_ ?_ (by decide)))
    · simp [TypeFragment.text]
    · exact startsPlain_append (by decide) _
  | normal fields =>
    refine .block_body _ _ (.line (.typed [.cast (e.responseType ++ " | null")] ?_ (by decide)
      (by decide)))
    simp [TypeFragment.text, String.append_assoc]

theorem stepsErase_statusChain (e : Endpoint) (responses : List Response) :
    StepsErase (responses.flatMap fun r => responseFragments e r.body)
      (statusChain e .typeScript responses) (statusChain e .javaScript responses) := by
  cases responses with
  | nil => exact .refl []
  | cons r rs =>
    rw [List.flatMap_cons]
    exact .cons (.block_body _ _ (stepsErase_response e r.body))
      (.map rs fun r => .chain _ _ (stepsErase_response e r.body))

theorem stepsErase_responseHeader (s : Slot) :
    StepsErase (castFragments s) (responseHeaderSteps .typeScript s)
      (responseHeaderSteps .javaScript s) :=
  .preceded [_] (.block_body _ _
    (.line (textErases_assignment s _ (startsPlain_propertyAccess (by decide) _))))

theorem stepsErase_overlay (e : Endpoint) :
    StepsErase (overlayFragments e) (overlaySteps e .typeScript) (overlaySteps e .javaScript) := by
  unfold overlayFragments overlaySteps
  split_ifs
  · exact .refl []
  · refine .preceded [_] (.cons (.line ?_) (.flatMap _ stepsErase_responseHeader))
    exact .typed _ (by simp [TypeFragment.text]) (by decide) (by decide)

theorem stepsErase_dispatch (e : Endpoint) :
    StepsErase (dispatchFragments e) (dispatch e .typeScript) (dispatch e .javaScript) := by
  refine .block_body _ _ (.followed (.append (.append (.preceded [_]
    (.cons (.line ?_) (stepsErase_statusChain e e.responses)))
    (.preceded [_] (.block_body _ _ (.line ?_)))) (stepsErase_overlay e)) _)
  · refine .typed _ ?_ (by decide) (by decide)
    simp [TypeFragment.text, String.append_assoc]
  · refine .typed _ ?_ (by decide) (by decide)
    simp [TypeFragment.text, String.append_assoc]

theorem stepsErase_method (e : Endpoint) :
    StepsErase (typeFragments e) (methodSteps .typeScript e) (methodSteps .javaScript e) := by
  refine .preceded _ (.block (.of_end (erases_head e) ?_ (by decide)) _ ?_)
  · simp [startsPlain, methodHead, Dialect.onlyTyped, Dialect.isTyped]
  · refine .append (.append (.preceded _ (stepsErase_uri e)) (stepsErase_request e)) ?_
    exact stepsErase_dispatch e

/-! ## Methods in their place -/

/-- The lines of a method in its class. -/
def methodLines (dialect : Dialect) (e : Endpoint) : List String :=
  (Step.lineList (methodSteps dialect e)).map (Writer.indented 1)

/-- A writer that puts a blank line, if it is asked for one, below its last line. -/
def Settled (w : Writer) : Prop :=
  w.pendingBlank = false ∧ w.blank.flushBlank.written = "" :: w.written

theorem settled_leave (w : Writer) : Settled (w.leave "\x7d") := by
  have hpending : (w.leave "\x7d").pendingBlank = false := Writer.pendingBlank_line _ _
  refine ⟨hpending, ?_⟩
  have hlast : ∀ depth, Writer.refusesBlank (Writer.indented depth "\x7d") = false := fun depth =>
    Writer.refusesBlank_indented depth "\x7d"
  simp [Writer.leave, Writer.line, Writer.blank, Writer.flushBlank, hlast]

theorem startsLine_methodSteps (dialect : Dialect) (e : Endpoint) :
    Step.startsLine (methodSteps dialect e) := by
  unfold methodSteps
  obtain ⟨lines⟩ := DocComment.ofDocs e.method.docs
  match lines with
  | [] => rfl
  | [line] => rfl
  | first :: second :: rest => rfl

/-- A method below others: a blank line, and its lines as they are on their own. -/
theorem method_below {w : Writer} (hw : Settled w) (dialect : Dialect) (e : Endpoint) :
    (Step.runAll (.blank :: methodSteps dialect e) w).written.reverse =
        w.written.reverse ++
          "" :: (Step.lineList (methodSteps dialect e)).map (Writer.indented w.depth) ∧
      Settled (Step.runAll (.blank :: methodSteps dialect e) w) := by
  have hrun : Step.runAll (.blank :: methodSteps dialect e) w =
      Step.runAll (methodSteps dialect e) w.blank := rfl
  rw [hrun]
  constructor
  · rw [Step.written_of_startsLine (startsLine_methodSteps dialect e), hw.2]
    simp [Step.lineList]
  · unfold methodSteps
    rw [Step.runAll_append]
    exact settled_leave _

theorem methods_below {w : Writer} (hw : Settled w) (dialect : Dialect)
    (endpoints : List Endpoint) :
    (Step.runAll (endpoints.flatMap fun e => .blank :: methodSteps dialect e) w).written.reverse =
      w.written.reverse ++ endpoints.flatMap fun e =>
        "" :: (Step.lineList (methodSteps dialect e)).map (Writer.indented w.depth) := by
  induction endpoints generalizing w with
  | nil => simp [Step.runAll]
  | cons e endpoints ih =>
    obtain ⟨hlines, hsettled⟩ := method_below hw dialect e
    rw [List.flatMap_cons, Step.runAll_append, ih hsettled, hlines, Step.depth_runAll,
      List.flatMap_cons, List.append_assoc]

/-- The lines of the client have those of the methods, one after the other. -/
theorem lineList_emit (api : Api) (options : Options) :
    ∃ before after, Step.lineList (emit api options).code =
      before ++ api.endpoints.flatMap (fun e => "" :: methodLines options.dialect e) ++ after := by
  -- The writer in front of the class, inside it, behind the constructor and behind the methods.
  let front := factory api options.dialect ++ [.blank] ++ utilityBindings api options.dialect ++
    [.blank]
  let opened := (Step.runAll front {}).enter ("class " ++ api.clientClass ++
    options.dialect.onlyTyped (" implements " ++ api.interface) ++ " \x7b")
  let made := Step.runAll (constructorSteps api options.dialect) opened
  let filled := Step.runAll
    (api.endpoints.flatMap fun e => .blank :: methodSteps options.dialect e) made
  let fields : List Step := if options.dialect.isTyped then
    [.blank, .line "private _fetch: IFetch;", .line "private _baseUri: string;"] else []
  have hcode : Step.lineList (emit api options).code =
      ((Step.runAll fields filled).leave "\x7d").written.reverse := by
    have hemit : (emit api options).code = front ++ classSteps api options.dialect := rfl
    rw [Step.lineList, hemit, Step.runAll_append]
    unfold classSteps
    rw [Step.braces, Step.runAll, Step.run, Step.runAll_append, Step.runAll_append]
    rfl
  have hdepth : made.depth = 1 := by
    rw [Step.depth_runAll, Writer.depth_enter, Step.depth_runAll]
  have hsettled : Settled made := settled_leave _
  have hfilled := methods_below hsettled options.dialect api.endpoints
  -- What follows the methods only adds lines.
  have hsuffix : filled.written <:+ ((Step.runAll fields filled).leave "\x7d").written := by
    have hfields : filled.written <:+ (Step.runAll fields filled).written := by
      unfold fields
      split_ifs
      · exact (Writer.suffix_line filled.blank _).trans (Writer.suffix_line _ _)
      · exact List.suffix_rfl
    exact hfields.trans (Writer.suffix_leave _ _)
  obtain ⟨after, hafter⟩ := List.reverse_prefix.2 hsuffix
  refine ⟨made.written.reverse, after, ?_⟩
  rw [hcode, ← hafter, hfilled, hdepth]
  rfl

end Client

/-- The code of the server and of every method of the client differs between the dialects in type
fragments only. The lines of one dialect are at the depth of the lines of the other, and the code
without types is the typed code with the fragments deleted; these are listed in order. -/
theorem dialects_share_structure (api : Api) (options : Options) :
    LinesErase (Server.typeFragments api)
        (Step.lineList (Server.emit api { options with dialect := .typeScript }).code)
        (Step.lineList (Server.emit api { options with dialect := .javaScript }).code) ∧
      (∀ e, LinesErase (Client.typeFragments e)
        (Client.methodLines .typeScript e) (Client.methodLines .javaScript e)) ∧
      ∀ dialect, ∃ before after, Step.lineList (Client.emit api { options with dialect }).code =
        before ++ api.endpoints.flatMap (fun e => "" :: Client.methodLines dialect e) ++ after := by
  refine ⟨(Server.stepsErase_emit api options).linesErase, fun e => ?_, fun dialect => ?_⟩
  · exact (Client.stepsErase_method e).linesErase.indented 1
  · exact Client.lineList_emit api { options with dialect }

end Stub

end HttpStubs

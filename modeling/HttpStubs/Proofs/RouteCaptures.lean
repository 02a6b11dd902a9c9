import Mathlib.Data.List.TakeWhile
import HttpStubs.Proofs.PathGrammar
import HttpStubs.Proofs.Resolution
import HttpStubs.Stub.Server

/-!
# Captures of a route

How a router reads a route: a colon with the longest run of word characters behind it is a capture
of that name, and every other character stands for itself (`readRoute`). The route of a path is read
back as the path exactly if no text holds a colon before a word character and no text that follows a
capture starts with a word character (`isUnambiguous`).
-/

namespace HttpStubs.Stub.Server

open Api (Endpoint PathPart Slot)
open Api.PathTemplate
open Service (Document Method)

/-! ## Reading a route -/

/-- A part of a route as the router reads it. -/
inductive RoutePart where
  | text (text : List Char)
  | capture (name : List Char)
  deriving DecidableEq, Repr

/-- ASCII letters, ASCII digits and `_`: the characters of a capture's name. -/
def isWordChar (c : Char) : Bool :=
  c.isAlphanum || c == '_'

/-- A character of fixed text in front of the parts of a route. -/
def pushChar (c : Char) : List RoutePart → List RoutePart
  | .text t :: parts => .text (c :: t) :: parts
  | parts => .text [c] :: parts

/-- The parts of a route. -/
def readRoute : List Char → List RoutePart
  | [] => []
  | c :: cs =>
    if c = ':' ∧ cs.takeWhile isWordChar ≠ [] then
      .capture (cs.takeWhile isWordChar) :: readRoute (cs.dropWhile isWordChar)
    else pushChar c (readRoute cs)
termination_by cs => cs.length
decreasing_by
  · exact Nat.lt_succ_of_le (List.dropWhile_sublist _).length_le
  · exact Nat.lt_succ_self _

/-- The part of a path that the router should read. -/
def RoutePart.ofPathPart : PathPart → RoutePart
  | .text t => .text t.toList
  | .capture s => .capture s.name.toList

/-- The parts of a path, with a slash at the start. -/
def slashedParts (path : List PathPart) : List RoutePart :=
  match path.map RoutePart.ofPathPart with
  | .text ('/' :: t) :: parts => .text ('/' :: t) :: parts
  | parts => pushChar '/' parts

/-- Whether a text holds a colon before a word character. -/
def holdsCapture : List Char → Bool
  | [] => false
  | c :: cs => (c = ':' && cs.head?.any isWordChar) || holdsCapture cs

/-- Whether a path starts with text that would continue the name of a capture. -/
def startsWithWord : List PathPart → Bool
  | .text t :: _ => t.toList.head?.any isWordChar
  | _ => false

/-- Whether no text holds a capture of its own and no text continues the capture before it. -/
def isUnambiguous : List PathPart → Bool
  | [] => true
  | .text t :: parts => !holdsCapture t.toList && isUnambiguous parts
  | .capture _ :: parts => !startsWithWord parts && isUnambiguous parts

/-! ## Text in front of a route -/

theorem head_any_eq_false_iff {p : Char → Bool} {cs : List Char} :
    cs.head?.any p = false ↔ ∀ h : 0 < cs.length, ¬p (cs.get ⟨0, h⟩) := by
  cases cs <;> simp

theorem takeWhile_ne_nil_iff {p : Char → Bool} {cs : List Char} :
    cs.takeWhile p ≠ [] ↔ cs.head?.any p := by
  rw [ne_eq, List.takeWhile_eq_nil_iff, ← head_any_eq_false_iff, Bool.not_eq_false]

theorem readRoute_capture {name cs : List Char} (nonempty : name ≠ [])
    (word : ∀ c ∈ name, isWordChar c) :
    readRoute (':' :: name ++ cs) =
      .capture (name ++ cs.takeWhile isWordChar) :: readRoute (cs.dropWhile isWordChar) := by
  rw [List.cons_append, readRoute, List.takeWhile_append_of_pos word,
    List.dropWhile_append_of_pos word, if_pos ⟨rfl, by simp [nonempty]⟩]

theorem readRoute_text {t cs : List Char} (quiet : holdsCapture t = false)
    (apart : cs.head?.any isWordChar = false) :
    readRoute (t ++ cs) = t.foldr pushChar (readRoute cs) := by
  induction t with
  | nil => rfl
  | cons c t ih =>
    rw [holdsCapture, Bool.or_eq_false_iff] at quiet
    rw [List.cons_append, readRoute, if_neg, ih quiet.2, List.foldr_cons]
    rintro ⟨rfl, hword⟩
    rw [takeWhile_ne_nil_iff, List.head?_append] at hword
    cases t with
    | nil => simp [apart] at hword
    | cons c t => simp_all

/-- The text that a route starts with is read to the letter and holds no capture. -/
theorem text_of_readRoute {cs t : List Char} {parts : List RoutePart}
    (h : readRoute cs = .text t :: parts) : t <+: cs ∧ t ≠ [] ∧ holdsCapture t = false := by
  induction cs generalizing t parts with
  | nil => simp [readRoute] at h
  | cons c cs ih =>
    rw [readRoute] at h
    split_ifs at h with hc
    · cases h
    cases hcs : readRoute cs with
    | nil =>
      obtain ⟨rfl, -⟩ : [c] = t ∧ [] = parts := by simpa [hcs, pushChar] using h
      simp [holdsCapture]
    | cons part parts' =>
      cases part with
      | capture name =>
        obtain ⟨rfl, -⟩ : [c] = t ∧ _ := by simpa [hcs, pushChar] using h
        simp [holdsCapture]
      | text t' =>
        obtain ⟨rfl, -⟩ : c :: t' = t ∧ parts' = parts := by simpa [hcs, pushChar] using h
        obtain ⟨hshown, nonempty, quiet⟩ := ih hcs
        refine ⟨List.cons_prefix_cons.2 ⟨rfl, hshown⟩, by simp, ?_⟩
        rw [holdsCapture, quiet, Bool.or_false, Bool.and_eq_false_iff]
        by_contra hboth
        simp only [not_or, Bool.not_eq_false, decide_eq_true_eq] at hboth
        refine hc ⟨hboth.1, takeWhile_ne_nil_iff.2 ?_⟩
        obtain ⟨rest, rfl⟩ := hshown
        rw [List.head?_append_of_ne_nil _ nonempty]
        exact hboth.2

theorem pushChar_of_apart {c : Char} {parts : List RoutePart}
    (apart : ∀ t parts', parts ≠ .text t :: parts') : pushChar c parts = .text [c] :: parts := by
  cases parts with
  | nil => rfl
  | cons part parts' =>
    cases part with
    | text t => exact absurd rfl (apart t parts')
    | capture name => rfl

theorem pushChar_inj {c : Char} {parts parts' : List RoutePart}
    (h : ∀ rest, parts ≠ .text [] :: rest) (h' : ∀ rest, parts' ≠ .text [] :: rest) :
    pushChar c parts = pushChar c parts' ↔ parts = parts' := by
  refine ⟨fun heq => ?_, fun heq => by rw [heq]⟩
  unfold pushChar at heq
  split at heq <;> split at heq <;> simp_all

theorem foldr_pushChar {t : List Char} {parts : List RoutePart} (nonempty : t ≠ [])
    (apart : ∀ t' parts', parts ≠ .text t' :: parts') :
    t.foldr pushChar parts = .text t :: parts := by
  induction t with
  | nil => exact absurd rfl nonempty
  | cons c t ih =>
    rw [List.foldr_cons]
    cases t with
    | nil => exact pushChar_of_apart apart
    | cons c' t =>
      rw [ih (by simp)]
      rfl

/-! ## The route of a path -/

/-- The characters of a path in a route, before a slash is added. -/
def routeChars (path : List PathPart) : List Char :=
  path.flatMap fun part => (routePart part).toList

theorem toList_join_routePart (path : List PathPart) :
    (String.join (path.map routePart)).toList = routeChars path := by
  rw [String.toList_join, List.flatMap_map]
  rfl

theorem toList_routePath (path : List PathPart) :
    (routePath path).toList =
      if (routeChars path).head? = some '/' then routeChars path else '/' :: routeChars path := by
  unfold routePath
  simp only [toList_join_routePart]
  split_ifs
  · exact toList_join_routePart path
  · rw [String.toList_append, toList_join_routePart]
    rfl

theorem word_of_isIdentifier {name : List Char} (h : isIdentifier name) :
    name ≠ [] ∧ ∀ c ∈ name, isWordChar c := by
  cases name with
  | nil => cases h
  | cons c cs =>
    simp only [isIdentifier, Bool.and_eq_true, List.all_eq_true] at h
    refine ⟨by simp, List.forall_mem_cons.2 ⟨?_, h.2⟩⟩
    have hc := h.1
    simp only [isWordChar, Char.isAlphanum, Bool.or_eq_true] at hc ⊢
    tauto

section

variable {fields : List Slot} {cs : List Char} {path : List PathPart}

theorem routeChars_capture {s : Slot} (wire : s.wire = s.name) :
    routeChars (.capture s :: path) = ':' :: s.name.toList ++ routeChars path := by
  simp [routeChars, routePart, wire]

theorem routeChars_text (t : List Char) :
    routeChars (.text (String.ofList t) :: path) = t ++ routeChars path := by
  simp [routeChars, routePart]

theorem head_routeChars (h : Template fields cs path) :
    (routeChars path).head?.any isWordChar = startsWithWord path := by
  cases h with
  | nil => rfl
  | text nonempty _ _ _ =>
    rw [routeChars_text, List.head?_append_of_ne_nil _ nonempty, startsWithWord,
      String.toList_ofList]
  | capture _ _ _ => simp [routeChars, routePart, startsWithWord, isWordChar]

/-- What follows a text is read as a capture or as nothing. -/
theorem readRoute_apart (wire : ∀ s ∈ fields, s.wire = s.name) (h : Template fields cs path)
    (apart : startsWithText path = false) (t : List Char) (parts : List RoutePart) :
    readRoute (routeChars path) ≠ .text t :: parts := by
  cases h with
  | nil => simp [routeChars, readRoute]
  | text _ _ _ _ => cases apart
  | capture identifier bound _ =>
    obtain ⟨nonempty, word⟩ := word_of_isIdentifier identifier
    rw [routeChars_capture (wire _ (List.mem_of_find?_eq_some bound)),
      readRoute_capture nonempty word]
    nofun

/-- The induction over the parts: a text is read whole if it holds no capture, and a capture ends
where its name ends if the next text does not continue it. -/
theorem readRoute_routeChars_iff (wire : ∀ s ∈ fields, s.wire = s.name)
    (h : Template fields cs path) :
    readRoute (routeChars path) = path.map RoutePart.ofPathPart ↔ isUnambiguous path := by
  induction h with
  | nil => simp [routeChars, readRoute, isUnambiguous]
  | @text t cs parts nonempty _ apart rest ih =>
    have hhead : (routeChars parts).head?.any isWordChar = false := by
      rw [head_routeChars rest]
      unfold startsWithWord
      split
      next => cases apart
      next => rfl
    rw [routeChars_text, List.map_cons, RoutePart.ofPathPart, String.toList_ofList, isUnambiguous,
      String.toList_ofList, Bool.and_eq_true, Bool.not_eq_true', ← ih]
    constructor
    · intro hread
      have quiet := (text_of_readRoute hread).2.2
      rw [readRoute_text quiet hhead,
        foldr_pushChar nonempty (readRoute_apart wire rest apart)] at hread
      exact ⟨quiet, (List.cons.inj hread).2⟩
    · rintro ⟨quiet, hread⟩
      rw [readRoute_text quiet hhead, foldr_pushChar nonempty (readRoute_apart wire rest apart),
        hread]
  | @capture s cs parts identifier bound rest ih =>
    obtain ⟨nonempty, word⟩ := word_of_isIdentifier identifier
    rw [routeChars_capture (wire s (List.mem_of_find?_eq_some bound)),
      readRoute_capture nonempty word, List.map_cons, RoutePart.ofPathPart, isUnambiguous,
      Bool.and_eq_true, Bool.not_eq_true', ← ih, ← head_routeChars rest]
    constructor
    · intro hread
      obtain ⟨hname, hrest⟩ := List.cons.inj hread
      have hnil : (routeChars parts).takeWhile isWordChar = [] := by simpa using hname
      have hstart := List.takeWhile_eq_nil_iff.1 hnil
      rw [List.dropWhile_eq_self_iff.2 hstart] at hrest
      exact ⟨head_any_eq_false_iff.2 hstart, hrest⟩
    · rintro ⟨hhead, hrest⟩
      have hstart := head_any_eq_false_iff.1 hhead
      rw [List.takeWhile_eq_nil_iff.2 hstart, List.append_nil,
        List.dropWhile_eq_self_iff.2 hstart, hrest]

theorem slashedParts_eq (h : Template fields cs path) :
    slashedParts path =
      if (routeChars path).head? = some '/' then path.map RoutePart.ofPathPart
      else pushChar '/' (path.map RoutePart.ofPathPart) := by
  cases h with
  | nil => rfl
  | @text t cs parts nonempty _ _ _ =>
    obtain ⟨c, t, rfl⟩ := List.exists_cons_of_ne_nil nonempty
    rw [routeChars_text, List.cons_append, List.head?_cons, slashedParts, List.map_cons,
      RoutePart.ofPathPart, String.toList_ofList]
    split_ifs with hslash
    · rw [Option.some.inj hslash]
      rfl
    · have hc : c ≠ '/' := fun heq => hslash (congrArg some heq)
      simp [hc]
  | capture _ _ _ => simp [routeChars, routePart, slashedParts, RoutePart.ofPathPart]

theorem readRoute_routePath_iff (wire : ∀ s ∈ fields, s.wire = s.name)
    (h : Template fields cs path) :
    readRoute (routePath path).toList = slashedParts path ↔ isUnambiguous path := by
  rw [toList_routePath, slashedParts_eq h, ← readRoute_routeChars_iff wire h]
  split_ifs with hslash
  · rfl
  · rw [readRoute, if_neg (by simp)]
    refine pushChar_inj (fun parts hempty => ?_) (fun parts hempty => ?_)
    · exact (text_of_readRoute hempty).2.1 rfl
    · cases h with
      | nil => cases hempty
      | text nonempty _ _ _ =>
        rw [List.map_cons, RoutePart.ofPathPart, String.toList_ofList] at hempty
        exact nonempty (RoutePart.text.inj (List.cons.inj hempty).1)
      | capture _ _ _ => cases hempty

theorem capture_mem_pushChar {c : Char} {name : List Char} {parts : List RoutePart} :
    .capture name ∈ pushChar c parts ↔ .capture name ∈ parts := by
  unfold pushChar
  split <;> simp

theorem capture_mem_slashedParts (h : Template fields cs path) {s : Slot} (hs : .capture s ∈ path) :
    .capture s.name.toList ∈ slashedParts path := by
  have hmem : RoutePart.capture s.name.toList ∈ path.map RoutePart.ofPathPart :=
    List.mem_map.2 ⟨_, hs, rfl⟩
  rw [slashedParts_eq h]
  split_ifs
  · exact hmem
  · exact capture_mem_pushChar.2 hmem

end

/-! ## Endpoints -/

theorem isBareName_of_isIdentifier {name : String} (h : isIdentifier name.toList) :
    Code.isBareName name := by
  unfold Code.isBareName
  cases hname : name.toList with
  | nil =>
    rw [hname] at h
    cases h
  | cons c cs =>
    rw [hname, isIdentifier, Bool.and_eq_true, List.all_eq_true] at h
    simp only [Bool.and_eq_true, List.all_eq_true]
    exact ⟨by simp [Code.isNameStart, h.1], fun c hc => by simp [Code.isNameChar, h.2 c hc]⟩

theorem propertyAccess_of_isIdentifier {object name : String} (h : isIdentifier name.toList) :
    Code.propertyAccess object name = object ++ "." ++ name := by
  rw [Code.propertyAccess, if_pos (isBareName_of_isIdentifier h)]

/-- The route of an endpoint is read as the parts of its path exactly if the path is unambiguous.
The handler reads each path field as a property of `req.params` by name; where the path is
unambiguous, that name is a capture of the route. -/
theorem route_read_back_iff {d : Document} {api : HttpStubs.Api} (h : Api.ofDocument d = .ok api)
    {e : Endpoint} (he : e ∈ api.endpoints) :
    (readRoute (routePath e.path).toList = slashedParts e.path ↔ isUnambiguous e.path) ∧
      ∀ s ∈ e.pathFields,
        (∀ dialect, pathStep dialect s = .line (requestField s.name ++ " = " ++
          s.kind.ofText dialect ("req.params" ++ "." ++ s.wire) ++ ";")) ∧
        (isUnambiguous e.path →
          .capture s.wire.toList ∈ readRoute (routePath e.path).toList) := by
  obtain ⟨b, -, hres⟩ := Api.resolved_of_mem_endpoints h he
  obtain ⟨hparse, hall⟩ := parse_eq_ok_iff.1 hres.path
  have template := template_of_parseText hparse
  have hiff := readRoute_routePath_iff (fun s hs => hres.wire_pathFields hs) template
  refine ⟨hiff, fun s hs => ?_⟩
  obtain ⟨s', hs', hname⟩ := mem_captured_iff.1 (hall s hs)
  have hwire : s.wire = s'.name := (hres.wire_pathFields hs).trans hname.symm
  refine ⟨fun dialect => ?_, fun hsafe => ?_⟩
  · have identifier : isIdentifier s.wire.toList := hwire ▸ template.identifier_of_mem hs'
    rw [pathStep, propertyAccess_of_isIdentifier identifier]
  · rw [hiff.2 hsafe, hwire]
    exact capture_mem_slashedParts template hs'

/-! ## Routes that are read and misread -/

/-- A text field carried in the path. -/
def textSlot (name : String) : Slot where
  field := { name, type := .string }
  wire := name
  kind := .string

/-- A method whose request has a text field for each name. -/
def pathMethod (names : List String) : Method where
  name := "getWidget"
  requestFields := names.map fun name => { name, type := .string }

/-- The document of that method alone, with all its fields in the path. -/
def pathDocument (names : List String) (path : String) : Document where
  service := { name := "Widgets", methods := [pathMethod names] }
  http := { methods := [{ name := "getWidget", verb := .get, path, pathFields := names }] }

def pathEndpoint (names : List String) (path : List PathPart) : Endpoint where
  method := pathMethod names
  verb := .get
  path
  pathFields := names.map textSlot
  queryFields := []
  requestHeaderFields := []
  requestBody := .none
  responseHeaderFields := []
  responses := []

def pathApi (names : List String) (path : List PathPart) : HttpStubs.Api where
  service := { name := "Widgets", methods := [pathMethod names] }
  baseUri := none
  endpoints := [pathEndpoint names path]

/-- Captures that touch, with text behind them and no slash at the start. -/
def filePath : List PathPart :=
  [.text "files/", .capture (textSlot "kind"), .capture (textSlot "id"), .text ".json"]

theorem file_route_read_back :
    Api.ofDocument (pathDocument ["kind", "id"] "files/\x7bkind\x7d\x7bid\x7d.json") =
        .ok (pathApi ["kind", "id"] filePath) ∧
      readRoute (routePath filePath).toList =
        [.text "/files/".toList, .capture "kind".toList, .capture "id".toList,
          .text ".json".toList] := by
  have h : Api.ofDocument (pathDocument ["kind", "id"] "files/\x7bkind\x7d\x7bid\x7d.json") =
      .ok (pathApi ["kind", "id"] filePath) := rfl
  have he : pathEndpoint ["kind", "id"] filePath ∈ (pathApi ["kind", "id"] filePath).endpoints :=
    List.mem_cons_self
  exact ⟨h, (route_read_back_iff h he).1.2 rfl⟩

/-- A capture with text behind it that continues its name. -/
def historyPath : List PathPart :=
  [.text "/widgets/", .capture (textSlot "id"), .text "_history"]

/-- The text becomes part of the name, so that the route does not capture `id`. -/
theorem history_route_misread :
    Api.ofDocument (pathDocument ["id"] "/widgets/\x7bid\x7d_history") =
        .ok (pathApi ["id"] historyPath) ∧
      readRoute (routePath historyPath).toList =
        [.text "/widgets/".toList, .capture "id_history".toList] ∧
      readRoute (routePath historyPath).toList ≠ slashedParts historyPath := by
  have hread : readRoute (routePath historyPath).toList =
      [.text "/widgets/".toList, .capture "id_history".toList] := by
    change readRoute ("/widgets/".toList ++ (':' :: "id_history".toList ++ [])) = _
    rw [readRoute_text rfl rfl, readRoute_capture (by simp) (List.all_eq_true.1 rfl),
      List.takeWhile_nil, List.dropWhile_nil, readRoute]
    rfl
  refine ⟨rfl, hread, ?_⟩
  rw [hread]
  decide

end HttpStubs.Stub.Server

import HttpStubs.Proofs.DialectStructure

/-!
# Declared types in typed code

The typed code of client and server is the code without types with pieces put in: type fragments, an
`implements` clause and lines of their own (`TypedVersion`). Each piece is one of a fixed list or
names a declared type in a fixed frame (`TypeUse.Names`). The declared types that are named are the
local types of the section, no more and no fewer (`WritesTypes`).
-/

namespace HttpStubs.Stub

open Code
open Api (Endpoint ResponseBody Slot)

/-- A piece of code that only the typed dialect has. -/
inductive TypeUse where
  | fragment (fragment : TypeFragment)
  /-- The interface of a class. -/
  | implementing (interface : String)
  /-- A line of its own. -/
  | line (text : String)
  deriving DecidableEq, Repr

/-- The first steps are the second with the pieces put in, in this order. -/
inductive TypedVersion : List TypeUse → List Step → List Step → Prop
  | nil : TypedVersion [] [] []
  /-- Steps that differ in fragments only. -/
  | erased {fs : List TypeFragment} {uses : List TypeUse} {steps steps' more more' : List Step} :
    StepsErase fs steps steps' → TypedVersion uses more more' →
    TypedVersion (fs.map .fragment ++ uses) (steps ++ more) (steps' ++ more')
  | added {uses : List TypeUse} {more more' : List Step} (text : String) :
    TypedVersion uses more more' → TypedVersion (.line text :: uses) (.line text :: more) more'
  | spaced {uses : List TypeUse} {more more' : List Step} :
    TypedVersion uses more more' → TypedVersion uses (.blank :: more) more'
  | implementing {uses : List TypeUse} {body body' : List Step} (head interface : String) :
    TypedVersion uses body body' →
    TypedVersion (.implementing interface :: uses)
      [.braces (head ++ (" implements " ++ interface)) body] [.braces head body']

theorem TypedVersion.same {uses : List TypeUse} {more more' : List Step}
    (steps : List Step) (h : TypedVersion uses more more') :
    TypedVersion uses (steps ++ more) (steps ++ more') :=
  .erased (.refl steps) h

/-- What stands around a declared type. -/
def typeFrames : List (String × String) :=
  [("", ""), ("", " | null"), (serviceResult ++ "<", ">"),
    ("Promise<" ++ serviceResult ++ "<", ">>")]

/-- A piece that names a declared type. -/
inductive TypeUse.Names (name : String) : TypeUse → Prop
  | ascription {front back : String} : (front, back) ∈ typeFrames →
    Names name (.fragment (.ascription (front ++ name ++ back)))
  | cast {front back : String} : (front, back) ∈ typeFrames →
    Names name (.fragment (.cast (front ++ name ++ back)))
  | implementing : Names name (.implementing name)

/-- The types that are not declared by the artifacts. -/
def foreignTypes : List String :=
  [Client.optionsType, "IFetch", "IFetchRequest", "string", "unknown", "string[]", "string | null",
    "string | undefined", "\x7b [code: string]: number \x7d", "express.Router"]

/-- The lines of the client that only the typed dialect has. -/
def typedLines : List String :=
  ["type IFetch = " ++ Client.utility ++ ".IFetch;",
    "type IFetchRequest = " ++ Client.utility ++ ".IFetchRequest;",
    "private _fetch: IFetch;", "private _baseUri: string;"]

/-- The pieces that name no declared type. -/
def foreignUses : List TypeUse :=
  [.fragment .visibility, .fragment .optional, .fragment .nonNull] ++
    foreignTypes.map (.fragment <| .ascription ·) ++ typedLines.map .line

/-- The pieces name these declared types and no others. -/
structure Accounts (names : List String) (uses : List TypeUse) : Prop where
  only : ∀ u ∈ uses, u ∈ foreignUses ∨ ∃ name ∈ names, u.Names name
  all : ∀ name ∈ names, ∃ u ∈ uses, u.Names name

/-- The typed code is the other with pieces put in that name these declared types and no others. -/
def WritesTypes (names : List String) (typed untyped : List Step) : Prop :=
  ∃ uses, TypedVersion uses typed untyped ∧ Accounts names uses

namespace Accounts

variable {names names' : List String} {uses more : List TypeUse}

theorem foreign (h : ∀ u ∈ uses, u ∈ foreignUses) : Accounts [] uses :=
  ⟨fun u hu => .inl (h u hu), nofun⟩

theorem single {name : String} {u : TypeUse} (h : u.Names name) : Accounts [name] [u] := by
  constructor
  · intro u' hu
    exact .inr ⟨name, List.mem_singleton.2 rfl, List.mem_singleton.1 hu ▸ h⟩
  · intro name' hname
    exact ⟨u, List.mem_singleton.2 rfl, List.mem_singleton.1 hname ▸ h⟩

theorem of_mem_iff (h : Accounts names uses) (hsame : ∀ name, name ∈ names ↔ name ∈ names') :
    Accounts names' uses := by
  constructor
  · intro u hu
    rcases h.only u hu with hforeign | ⟨name, hname, hnames⟩
    · exact .inl hforeign
    · exact .inr ⟨name, (hsame name).1 hname, hnames⟩
  · intro name hname
    exact h.all name ((hsame name).2 hname)

theorem append (h : Accounts names uses) (h' : Accounts names' more) :
    Accounts (names ++ names') (uses ++ more) := by
  constructor
  · intro u hu
    rcases List.mem_append.1 hu with hu | hu
    · rcases h.only u hu with hforeign | ⟨name, hname, hnames⟩
      · exact .inl hforeign
      · exact .inr ⟨name, List.mem_append_left _ hname, hnames⟩
    · rcases h'.only u hu with hforeign | ⟨name, hname, hnames⟩
      · exact .inl hforeign
      · exact .inr ⟨name, List.mem_append_right _ hname, hnames⟩
  · intro name hname
    rcases List.mem_append.1 hname with hname | hname
    · obtain ⟨u, hu, hnames⟩ := h.all name hname
      exact ⟨u, List.mem_append_left _ hu, hnames⟩
    · obtain ⟨u, hu, hnames⟩ := h'.all name hname
      exact ⟨u, List.mem_append_right _ hu, hnames⟩

theorem flatMap {α : Type} {f : α → List String} {g : α → List TypeUse} (xs : List α)
    (h : ∀ x, Accounts (f x) (g x)) : Accounts (xs.flatMap f) (xs.flatMap g) := by
  induction xs with
  | nil => exact foreign nofun
  | cons x xs ih => exact (h x).append ih

end Accounts

theorem names_ascription (name : String) : (TypeUse.fragment (.ascription name)).Names name := by
  have hframe : ("", "") ∈ typeFrames := by decide
  simpa using TypeUse.Names.ascription hframe

theorem names_cast (name : String) : (TypeUse.fragment (.cast name)).Names name := by
  have hframe : ("", "") ∈ typeFrames := by decide
  simpa using TypeUse.Names.cast hframe

/-- The casts of some slots name their enums. -/
theorem accounts_casts (slots : List Slot) :
    Accounts (enumNames slots) ((slots.flatMap castFragments).map .fragment) := by
  have hslot : ∀ s : Slot, Accounts s.kind.enumName?.toList ((castFragments s).map .fragment) := by
    intro s
    unfold castFragments
    cases s.kind.enumName? with
    | none => exact .foreign nofun
    | some name => exact .single (names_cast name)
  have hnames : enumNames slots = slots.flatMap fun s => s.kind.enumName?.toList := by
    induction slots with
    | nil => rfl
    | cons s slots ih =>
      rw [List.flatMap_cons, ← ih, enumNames, List.filterMap_cons]
      cases s.kind.enumName? <;> rfl
  rw [hnames, List.map_flatMap]
  exact .flatMap slots hslot

/-! ## The server -/

namespace Server

theorem accounts_route (e : Endpoint) :
    Accounts (e.requestType :: enumNames (readSlots e)) ((routeFragments e).map .fragment) := by
  have hheaders : Accounts (enumNames e.requestHeaderFields)
      ((headerFragments e).map .fragment) := by
    unfold headerFragments
    split_ifs with hempty
    · rw [List.isEmpty_iff.1 hempty]
      exact .foreign nofun
    · rw [List.map_append]
      exact (Accounts.foreign (by decide)).append (accounts_casts _)
  have hslots : enumNames (readSlots e) = enumNames e.pathFields ++ enumNames e.queryFields ++
      enumNames e.requestHeaderFields := by
    simp [readSlots, enumNames]
  rw [hslots, routeFragments, List.map_append, List.map_append, List.map_append]
  exact (((Accounts.single (names_ascription _)).append (accounts_casts _)).append
    (accounts_casts _)).append hheaders

/-- The server writes its local types and no other declared types. -/
theorem writesTypes_emit (api : Api) (options : Options) :
    WritesTypes (emit api options).localTypes (emit api { options with dialect := .typeScript }).code
      (emit api { options with dialect := .javaScript }).code := by
  refine ⟨(typeFragments api).map .fragment, ?_, ?_⟩
  · simpa using TypedVersion.erased (stepsErase_emit api options) .nil
  · have htable : Accounts [] [.fragment (.ascription "\x7b [code: string]: number \x7d")] :=
      .foreign (by decide)
    have hrouter : Accounts [] [.fragment (.ascription "express.Router")] := .foreign (by decide)
    have hroutes := Accounts.flatMap api.endpoints accounts_route
    rw [← List.map_flatMap] at hroutes
    have hemit := htable.append (((Accounts.single (names_ascription api.interface)).append
      hrouter).append hroutes)
    simpa [typeFragments, emit] using hemit

end Server

/-! ## The client -/

namespace Client

theorem stepsErase_factory (api : Api) :
    StepsErase [.ascription optionsType, .ascription api.interface] (factory api .typeScript)
      (factory api .javaScript) := by
  have hhead : Erases [.ascription optionsType, .ascription api.interface]
      ("export function createHttpClient(\x7b fetch, baseUri \x7d" ++
        Dialect.typeScript.onlyTyped (": " ++ optionsType) ++ ")" ++
        Dialect.typeScript.onlyTyped (": " ++ api.interface))
      ("export function createHttpClient(\x7b fetch, baseUri \x7d" ++
        Dialect.javaScript.onlyTyped (": " ++ optionsType) ++ ")" ++
        Dialect.javaScript.onlyTyped (": " ++ api.interface)) :=
    (((Erases.onlyTyped [_] (by simp [TypeFragment.text])).preceded _).followed _).append
      (.onlyTyped [_] (by simp [TypeFragment.text]))
  exact .preceded _ (.block_head (.of_end hhead (by simp [startsPlain]) (by decide)) _ _)

theorem stepsErase_constructor (api : Api) :
    StepsErase [.ascription "IFetch", .optional, .ascription "string"]
      (constructorSteps api .typeScript) (constructorSteps api .javaScript) := by
  have hfetch := Erases.onlyTyped [.ascription "IFetch"] rfl
  have hbase := Erases.onlyTyped [.optional, .ascription "string"] rfl
  have hhead : Erases [.ascription "IFetch", .optional, .ascription "string"]
      ("constructor(fetch" ++ Dialect.typeScript.onlyTyped ": IFetch" ++ ", baseUri" ++
        Dialect.typeScript.onlyTyped "?: string" ++ ")")
      ("constructor(fetch" ++ Dialect.javaScript.onlyTyped ": IFetch" ++ ", baseUri" ++
        Dialect.javaScript.onlyTyped "?: string" ++ ")") :=
    (((hfetch.preceded _).followed _).append hbase).followed _
  exact .block_head (.of_end hhead (by simp [startsPlain]) (by decide)) _ _

/-- The pieces of the client's class, in order. -/
def classUses (api : Api) : List TypeUse :=
  .implementing api.interface ::
    ([TypeFragment.ascription "IFetch", .optional, .ascription "string"].map .fragment ++
      ((api.endpoints.flatMap typeFragments).map .fragment ++
        [.line "private _fetch: IFetch;", .line "private _baseUri: string;"]))

/-- The pieces of the client, in order. -/
def typeUses (api : Api) : List TypeUse :=
  [TypeFragment.ascription optionsType, .ascription api.interface].map .fragment ++
    (.line ("type IFetch = " ++ utility ++ ".IFetch;") ::
      .line ("type IFetchRequest = " ++ utility ++ ".IFetchRequest;") :: classUses api)

theorem typedVersion_class (api : Api) :
    TypedVersion (classUses api) (classSteps api .typeScript) (classSteps api .javaScript) := by
  have hmethods : StepsErase (api.endpoints.flatMap typeFragments)
      (api.endpoints.flatMap fun e => .blank :: methodSteps .typeScript e)
      (api.endpoints.flatMap fun e => .blank :: methodSteps .javaScript e) :=
    .flatMap _ fun e => .preceded [.blank] (stepsErase_method e)
  have hfields : TypedVersion [.line "private _fetch: IFetch;", .line "private _baseUri: string;"]
      [.blank, .line "private _fetch: IFetch;", .line "private _baseUri: string;"] [] :=
    .spaced (.added _ (.added _ .nil))
  have hbody := TypedVersion.erased (stepsErase_constructor api) (.erased hmethods hfields)
  have hclass := TypedVersion.implementing ("class " ++ api.clientClass) api.interface hbody
  simpa [classSteps, classUses, Dialect.onlyTyped, Dialect.isTyped] using hclass

theorem typedVersion_emit (api : Api) (options : Options) :
    TypedVersion (typeUses api) (emit api { options with dialect := .typeScript }).code
      (emit api { options with dialect := .javaScript }).code := by
  have hclass := (typedVersion_class api).same [.blank]
  have hbindings := (TypedVersion.added ("type IFetch = " ++ utility ++ ".IFetch;")
    (.added ("type IFetchRequest = " ++ utility ++ ".IFetchRequest;") hclass)).same
    [.blank, .line ("const " ++ braced (utilityFunctions api) ++ " = " ++ utility ++ ";")]
  have hemit := TypedVersion.erased (stepsErase_factory api) hbindings
  simpa [emit, utilityBindings, typeUses, Dialect.isTyped] using hemit

theorem accounts_head (e : Endpoint) :
    Accounts [e.requestType, e.responseType] ((headFragments e).map .fragment) := by
  have hvisibility : Accounts [] [.fragment .visibility] := .foreign (by decide)
  have hcontext : Accounts [] [.fragment .optional, .fragment (.ascription "unknown")] :=
    .foreign (by decide)
  have hresult : (TypeUse.fragment (.ascription
      ("Promise<" ++ serviceResult ++ "<" ++ e.responseType ++ ">>"))).Names e.responseType :=
    .ascription (by decide)
  exact ((hvisibility.append (.single (names_ascription _))).append hcontext).append
    (.single hresult)

theorem accounts_request (e : Endpoint) :
    Accounts [] ((uriFragments e ++ requestFragments e).map .fragment) := by
  have huri : Accounts [] ((uriFragments e).map .fragment) := by
    unfold uriFragments
    split_ifs
    · exact .foreign nofun
    · exact .foreign (by decide)
  have hrequest : Accounts [] [.fragment (.ascription "IFetchRequest")] := .foreign (by decide)
  have hheaders : Accounts [] ((e.requestHeaderFields.flatMap fun _ => [.nonNull]).map
      .fragment) := by
    apply Accounts.foreign
    intro u hu
    obtain ⟨f, hf, rfl⟩ := List.mem_map.1 hu
    obtain ⟨s, -, hf⟩ := List.mem_flatMap.1 hf
    rw [List.mem_singleton.1 hf]
    decide
  rw [requestFragments, List.map_append, List.map_append]
  exact huri.append (hrequest.append hheaders)

/-- The declared types that decoding a response names. -/
def decodedNames (e : Endpoint) : ResponseBody → List String
  | .empty | .flag _ => []
  | .field _ | .normal _ => [e.responseType]

theorem accounts_response (e : Endpoint) (body : ResponseBody) :
    Accounts (decodedNames e body) ((responseFragments e body).map .fragment) := by
  cases body with
  | empty => exact .foreign nofun
  | flag f => exact .foreign nofun
  | field f => exact .single (names_cast _)
  | normal fields =>
    have hframe : ("", " | null") ∈ typeFrames := by decide
    exact .single (by simpa using TypeUse.Names.cast hframe)

theorem accounts_overlay (e : Endpoint) :
    Accounts (enumNames (readHeaders e)) ((overlayFragments e).map .fragment) := by
  unfold overlayFragments
  split_ifs with hempty
  · rw [List.isEmpty_iff.1 hempty]
    exact .foreign nofun
  · rw [List.map_append]
    exact (Accounts.foreign (by decide)).append (accounts_casts _)

theorem accounts_dispatch (e : Endpoint) :
    Accounts (e.responseType :: enumNames (readHeaders e))
      ((dispatchFragments e).map .fragment) := by
  have hvalue : (TypeUse.fragment (.ascription (e.responseType ++ " | null"))).Names
      e.responseType := by
    have hframe : ("", " | null") ∈ typeFrames := by decide
    simpa using TypeUse.Names.ascription hframe
  have herror : (TypeUse.fragment (.cast (serviceResult ++ "<" ++ e.responseType ++ ">"))).Names
      e.responseType := .cast (by decide)
  have hresponses := Accounts.flatMap e.responses fun r => accounts_response e r.body
  have hdecoded : ∀ name ∈ e.responses.flatMap fun r => decodedNames e r.body,
      name = e.responseType := by
    intro name hname
    obtain ⟨r, -, hname⟩ := List.mem_flatMap.1 hname
    cases hbody : r.body with
    | empty | flag =>
      rw [hbody] at hname
      cases hname
    | field | normal =>
      rw [hbody] at hname
      exact List.mem_singleton.1 hname
  rw [← List.map_flatMap] at hresponses
  have hall := (((Accounts.single hvalue).append hresponses).append (.single herror)).append
    (accounts_overlay e)
  rw [dispatchFragments, List.map_append, List.map_append, List.map_append]
  refine hall.of_mem_iff fun name => ?_
  have hdecoded := hdecoded name
  simp only [List.mem_append, List.mem_cons, List.not_mem_nil, or_false]
  tauto

/-- A method names the types of its requests and responses and the enums of the headers that it
reads. -/
theorem accounts_method (e : Endpoint) :
    Accounts (e.requestType :: e.responseType :: enumNames (readHeaders e))
      ((typeFragments e).map .fragment) := by
  have hall := (accounts_head e).append ((accounts_request e).append (accounts_dispatch e))
  rw [← List.map_append, ← List.map_append] at hall
  refine hall.of_mem_iff fun name => ?_
  simp only [List.mem_append, List.mem_cons, List.not_mem_nil, or_false, false_or]
  tauto

/-- The client writes its local types and no other declared types. -/
theorem writesTypes_emit (api : Api) (options : Options) :
    WritesTypes (emit api options).localTypes (emit api { options with dialect := .typeScript }).code
      (emit api { options with dialect := .javaScript }).code := by
  refine ⟨typeUses api, typedVersion_emit api options, ?_⟩
  have hoptions : Accounts [] [.fragment (.ascription optionsType)] := .foreign (by decide)
  have hfetch : Accounts [] [.line ("type IFetch = " ++ utility ++ ".IFetch;"),
      .line ("type IFetchRequest = " ++ utility ++ ".IFetchRequest;")] := .foreign (by decide)
  have hconstructor : Accounts [] ([TypeFragment.ascription "IFetch", .optional,
      .ascription "string"].map .fragment) := .foreign (by decide)
  have hfields : Accounts [] [.line "private _fetch: IFetch;",
      .line "private _baseUri: string;"] := .foreign (by decide)
  have hmethods := Accounts.flatMap api.endpoints accounts_method
  rw [← List.map_flatMap] at hmethods
  have hclass : Accounts (api.interface :: api.endpoints.flatMap fun e =>
      e.requestType :: e.responseType :: enumNames (readHeaders e)) (classUses api) := by
    have hinterface : Accounts [api.interface] [.implementing api.interface] :=
      .single .implementing
    simpa [classUses] using hinterface.append (hconstructor.append (hmethods.append hfields))
  have hall := (hoptions.append (.single (names_ascription api.interface))).append
    (hfetch.append hclass)
  refine hall.of_mem_iff fun name => ?_
  simp [emit]

end Client

end HttpStubs.Stub

import HttpStubs.Proofs.HelperCalls

/-!
# Helpers are defined exactly where they are used

An artifact has the source of the boolean reader once if one of its sections parses a boolean,
otherwise not at all; and the client takes the function that reports missing fields from the runtime
package exactly if one of its methods calls it.
-/

namespace HttpStubs

/-! ## Occurrences of a block of lines -/

/-- The number of places where a block of lines stands among others. -/
def Text.occurrences (block : List String) : List String → ℕ
  | [] => 0
  | l :: ls => (if block.isPrefixOf (l :: ls) then 1 else 0) + occurrences block ls

theorem Text.occurrences_le_countP {block : List String} {p : String → Bool}
    (hblock : block.head?.any p) (ls : List String) : occurrences block ls ≤ ls.countP p := by
  induction ls with
  | nil => exact Nat.zero_le _
  | cons l ls ih =>
    rw [occurrences, List.countP_cons]
    split_ifs with hhere hp
    · omega
    · cases block with
      | nil => cases hblock
      | cons first block =>
        rw [List.isPrefixOf_cons_cons, Bool.and_eq_true, beq_iff_eq] at hhere
        exact absurd (hhere.1 ▸ hblock) hp
    · omega
    · omega

theorem Text.occurrences_pos {block : List String} (hblock : block ≠ []) (above : List String) :
    0 < occurrences block (above ++ block) := by
  induction above with
  | nil =>
    obtain ⟨first, rest, rfl⟩ := List.exists_cons_of_ne_nil hblock
    rw [List.nil_append, occurrences, if_pos (by simp)]
    omega
  | cons l above ih =>
    rw [List.cons_append, occurrences]
    omega

namespace Stub

open Code
open Api (Endpoint)

/-! ## The boolean reader -/

theorem head_booleanReader (dialect : Dialect) :
    (Text.lines (booleanReader dialect)).head?.any isReaderHead := by
  rw [booleanReader, Text.lines_intercalate]
  · simp [isReaderHead]
  · cases dialect <;> simp [Text.IsLine, Dialect.onlyTyped, Dialect.isTyped]

theorem lines_booleanReader_ne_nil (dialect : Dialect) :
    Text.lines (booleanReader dialect) ≠ [] := by
  intro hempty
  have hhead := head_booleanReader dialect
  rw [hempty] at hhead
  cases hhead

theorem sections_of_mem_plans {api : Api} {options : Options} {p : Plan}
    (hp : p ∈ plans api options) : ∀ s ∈ p.sections, s ∈ sections api options := by
  intro s hs
  rw [← flatMap_sections_plans]
  exact List.mem_flatMap.2 ⟨p, hp, hs⟩

/-- An artifact has the source of the boolean reader once or not at all, as its layout says. -/
theorem occurrences_booleanReader {api : Api} {options : Options} {p : Plan}
    (hp : p ∈ plans api options) :
    Text.occurrences (Text.lines (booleanReader options.dialect)) (p.lineList options) =
      if p.sections.any (·.parsesBoolean) then 1 else 0 := by
  have hcount := countP_isReaderHead (sections_of_mem_plans hp)
  have hle := Text.occurrences_le_countP (head_booleanReader options.dialect) (p.lineList options)
  rw [lineList_layout] at hle ⊢
  rw [hcount] at hle
  have hreader : (p.layout options).reader = p.sections.any (·.parsesBoolean) := rfl
  rw [← hreader]
  cases hdefined : (p.layout options).reader with
  | false =>
    rw [hdefined] at hle
    exact Nat.le_zero.1 hle
  | true =>
    rw [hdefined] at hle
    -- The reader is the last block.
    obtain ⟨above, habove⟩ : ∃ above, (p.layout options).lineList options =
        above ++ Text.lines (booleanReader options.dialect) := by
      have hne := lines_booleanReader_ne_nil options.dialect
      rw [Layout.lineList, Layout.blocks, List.foldl_append, hdefined, if_pos rfl, List.foldl_cons,
        List.foldl_nil, Writer.spaced, if_neg (by simpa using hne)]
      exact ⟨_, rfl⟩
    have hpos := Text.occurrences_pos (lines_booleanReader_ne_nil options.dialect) above
    rw [habove] at hle ⊢
    exact Nat.le_antisymm hle hpos

/-- The flag that asks for the boolean reader is set exactly on the sections that parse a boolean. -/
theorem parsesBoolean_iff {api : Api} {options : Options} {s : Section}
    (hs : s ∈ sections api options) :
    s.parsesBoolean = true ↔ Emits ParsesBoolean (Step.textsAll s.code) := by
  have hkind : ∀ slot : Api.Slot, slot.kind.isBoolean = true ↔ slot.kind = .boolean := by
    intro slot
    cases slot.kind <;> simp [Api.Scalar.isBoolean]
  simp only [sections, List.mem_append, List.mem_cons] at hs
  rcases hs with hs | rfl | hs
  · split_ifs at hs
    · obtain rfl := List.mem_singleton.1 hs
      exact iff_of_false Bool.false_ne_true (Types.not_emits_emit api options)
    · cases hs
  · rw [Client.emits_emit fun _ => .inl]
    simp [Client.emit, Client.emits_parsesBoolean, readsBoolean, hkind]
  · split_ifs at hs
    · obtain rfl := List.mem_singleton.1 hs
      rw [Server.emits_emit]
      simp [Server.emit, Server.emits_parsesBoolean, readsBoolean, hkind]
    · cases hs

/-! ## The function that reports missing fields -/

theorem Client.hasGuard_iff (e : Endpoint) :
    hasGuard e = true ↔ e.pathFields ≠ [] ∨ ∃ f, e.requestBody = .field f ∧ f.required := by
  have hbody : (requiredBodyField? e).isSome = true ↔
      ∃ f, e.requestBody = .field f ∧ f.required := by
    unfold requiredBodyField?
    cases e.requestBody with
    | field f => cases hrequired : f.required <;> simp [hrequired]
    | _ => simp
  simp [hasGuard, hbody]

theorem Client.mem_utilityFunctions_iff (api : Api) :
    "createRequiredRequestFieldError" ∈ utilityFunctions api ↔
      ∃ e ∈ api.endpoints, hasGuard e = true := by
  unfold utilityFunctions
  split_ifs with hguard
  · simpa using List.any_eq_true.1 hguard
  · simpa using hguard

/-- The source of the boolean reader stands once in an artifact one of whose sections parses a
boolean, and nowhere in the others. The client parses one exactly if a method with a valid response
has a boolean response header, the server exactly if a method has a boolean in path, query or request
headers. The client takes the function that reports missing fields exactly if one of its methods
calls it, which a method does that has a path field or a required body field. -/
theorem helpers_defined_where_used (api : Api) (options : Options) :
    artifacts api options = (plans api options).map (fun p =>
        ⟨p.name, Writer.textOf options.newline (p.lineList options)⟩) ∧
      (∀ p ∈ plans api options,
        ((∃ s ∈ p.sections, Emits ParsesBoolean (Step.textsAll s.code)) →
          Text.occurrences (Text.lines (booleanReader options.dialect)) (p.lineList options) = 1) ∧
        ((¬∃ s ∈ p.sections, Emits ParsesBoolean (Step.textsAll s.code)) →
          Text.occurrences (Text.lines (booleanReader options.dialect)) (p.lineList options) = 0)) ∧
      ¬Emits ParsesBoolean (Step.textsAll (Types.emit api options).code) ∧
      (Emits ParsesBoolean (Step.textsAll (Client.emit api options).code) ↔
        ∃ e ∈ api.endpoints, e.responses ≠ [] ∧
          ∃ s ∈ e.responseHeaderFields, s.kind = .boolean) ∧
      (Emits ParsesBoolean (Step.textsAll (Server.emit api options).code) ↔
        ∃ e ∈ api.endpoints,
          ∃ s ∈ e.pathFields ++ e.queryFields ++ e.requestHeaderFields, s.kind = .boolean) ∧
      "const " ++ braced (Client.utilityFunctions api) ++ " = " ++ Client.utility ++ ";" ∈
        Step.textsAll (Client.emit api options).code ∧
      ("createRequiredRequestFieldError" ∈ Client.utilityFunctions api ↔
        ∃ e ∈ api.endpoints,
          Emits RefusesRequest (Step.textsAll (Client.methodSteps options.dialect e))) ∧
      ∀ e, Emits RefusesRequest (Step.textsAll (Client.methodSteps options.dialect e)) ↔
        e.pathFields ≠ [] ∨ ∃ f, e.requestBody = .field f ∧ f.required := by
  refine ⟨artifacts_eq api options options.newline, fun p hp => ?_,
    Types.not_emits_emit api options, ?_, ?_, ?_, ?_, Client.emits_refusesRequest options.dialect⟩
  · have hany : p.sections.any (·.parsesBoolean) = true ↔
        ∃ s ∈ p.sections, Emits ParsesBoolean (Step.textsAll s.code) := by
      rw [List.any_eq_true]
      exact exists_congr fun s => and_congr_right fun hs =>
        parsesBoolean_iff (sections_of_mem_plans hp s hs)
    rw [← hany, occurrences_booleanReader hp]
    exact ⟨fun h => if_pos h, fun h => if_neg h⟩
  · rw [Client.emits_emit fun _ => .inl]
    refine exists_congr fun e => and_congr_right fun _ => ?_
    rw [Client.emits_parsesBoolean, Client.readHeaders]
    split_ifs with hempty
    · simp [List.isEmpty_iff.1 hempty]
    · have hsome : e.responses ≠ [] := by simpa using hempty
      simp [hsome]
  · rw [Server.emits_emit]
    exact exists_congr fun e => and_congr_right fun _ => Server.emits_parsesBoolean options.dialect e
  · simp [Client.emit, Client.utilityBindings, Step.texts]
  · rw [Client.mem_utilityFunctions_iff]
    refine exists_congr fun e => and_congr_right fun _ => ?_
    rw [Client.hasGuard_iff, Client.emits_refusesRequest]

/-- A method with a path field and a boolean response header. -/
def probeEndpoint (responses : List Api.Response) : Endpoint where
  method := {
    name := "getWidget"
    requestFields := [{ name := "id", type := .string }]
    responseFields := [{ name := "fresh", type := .boolean }] }
  verb := .get
  path := [.text "/widgets/", .capture ⟨{ name := "id", type := .string }, "id", .string⟩]
  pathFields := [⟨{ name := "id", type := .string }, "id", .string⟩]
  queryFields := []
  requestHeaderFields := []
  requestBody := .none
  responseHeaderFields := [⟨{ name := "fresh", type := .boolean }, "X-Fresh", .boolean⟩]
  responses

def probeApi (responses : List Api.Response) : Api where
  service := { name := "Widgets" }
  baseUri := none
  endpoints := [probeEndpoint responses]

def probeOptions : Options where
  server := true

/-- With a valid response the client has the reader and the server has not; without one, no artifact
has it. -/
theorem probe_defines_reader :
    (∃ client ∈ plans (probeApi [⟨200, .empty⟩]) probeOptions,
      client.sections = [Client.emit (probeApi [⟨200, .empty⟩]) probeOptions] ∧
        Text.occurrences (Text.lines (booleanReader .typeScript)) (client.lineList probeOptions) =
          1) ∧
      (∃ server ∈ plans (probeApi [⟨200, .empty⟩]) probeOptions,
        server.sections = [Server.emit (probeApi [⟨200, .empty⟩]) probeOptions] ∧
          Text.occurrences (Text.lines (booleanReader .typeScript)) (server.lineList probeOptions) =
            0) ∧
      (∃ client ∈ plans (probeApi []) probeOptions,
        client.sections = [Client.emit (probeApi []) probeOptions] ∧
          Text.occurrences (Text.lines (booleanReader .typeScript)) (client.lineList probeOptions) =
            0) ∧
      "createRequiredRequestFieldError" ∈ Client.utilityFunctions (probeApi []) := by
  obtain ⟨-, hreader, -, hclient, hserver, -, -, -⟩ :=
    helpers_defined_where_used (probeApi [⟨200, .empty⟩]) probeOptions
  obtain ⟨-, hreader', -, hclient', -, -, hbinding, hguard⟩ :=
    helpers_defined_where_used (probeApi []) probeOptions
  have hplans : ∀ responses, ∃ client server,
      client ∈ plans (probeApi responses) probeOptions ∧
        server ∈ plans (probeApi responses) probeOptions ∧
        client.sections = [Client.emit (probeApi responses) probeOptions] ∧
        server.sections = [Server.emit (probeApi responses) probeOptions] := fun responses =>
    ⟨_, _, .tail _ (.head _), .tail _ (.tail _ (.head _)), rfl, rfl⟩
  obtain ⟨client, server, hmem, hmemServer, hsections, hsectionsServer⟩ := hplans [⟨200, .empty⟩]
  obtain ⟨client', -, hmem', -, hsections', -⟩ := hplans []
  refine ⟨⟨client, hmem, hsections, (hreader client hmem).1 ?_⟩,
    ⟨server, hmemServer, hsectionsServer, (hreader server hmemServer).2 ?_⟩,
    ⟨client', hmem', hsections', (hreader' client' hmem').2 ?_⟩, hbinding.2 ?_⟩
  · rw [hsections]
    exact ⟨_, List.mem_singleton.2 rfl, hclient.2 (by simp [probeApi, probeEndpoint])⟩
  · rw [hsectionsServer]
    rintro ⟨s, hs, hparses⟩
    rw [List.mem_singleton.1 hs, hserver] at hparses
    simp [probeApi, probeEndpoint] at hparses
  · rw [hsections']
    rintro ⟨s, hs, hparses⟩
    rw [List.mem_singleton.1 hs, hclient'] at hparses
    simp [probeApi, probeEndpoint] at hparses
  · exact ⟨probeEndpoint [], List.mem_singleton.2 rfl, (hguard _).2 (.inl nofun)⟩

end Stub

end HttpStubs

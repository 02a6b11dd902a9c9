import Mathlib.Data.List.Basic
import HttpStubs.Stub.Artifact

/-!
# Artifacts before they are written

A plan has the name of an artifact, the sections that it holds and where these get the declared
types from. The artifacts of an API are its plans written out: one plan for all the sections, or
one for each. Only the last step, which joins the lines, depends on how lines end.
-/

namespace HttpStubs

namespace Code.Writer

/-- Lines with an end each. -/
def textOf (newline : Text.Newline) (ls : List String) : String :=
  String.join (ls.map (· ++ newline.text))

theorem textOf_cons (newline : Text.Newline) (l : String) (ls : List String) :
    textOf newline (l :: ls) = l ++ newline.text ++ textOf newline ls := by
  simp [textOf]

end Code.Writer

/-- The lines that steps write on their own. -/
def Code.Step.lineList (steps : List Code.Step) : List String :=
  (Code.Step.runAll steps {}).written.reverse

namespace Stub

open Code

/-- The sections in order: types (in the typed dialect), client, server (if wanted). -/
def sections (api : Api) (options : Options) : List Section :=
  (if options.dialect.isTyped then [Types.emit api options] else []) ++
    Client.emit api options :: if options.server then [Server.emit api options] else []

/-- The only default import is the router's, and the items are types and functions of the runtime
package. -/
theorem import_of_mem_sections {api : Api} {options : Options} {s : Section}
    (hs : s ∈ sections api options) {i : Import} (hi : i ∈ s.imports) :
    (∀ name, i.default? = some name → name = "express") ∧
      ∀ name ∈ i.items,
        name ∈ [serviceResult, serviceError, Client.utility, Client.optionsType] := by
  simp only [sections, List.mem_append, List.mem_cons] at hs
  rcases hs with hs | rfl | hs
  · split_ifs at hs
    · obtain rfl := List.mem_singleton.1 hs
      simp only [Types.emit] at hi
      split_ifs at hi
      · cases hi
      · obtain rfl := List.mem_singleton.1 hi
        refine ⟨by simp, fun name hname => ?_⟩
        exact List.mem_append_left _ (List.mem_filter.1 hname).1
    · cases hs
  · simp only [Client.emit, List.mem_cons] at hi
    rcases hi with rfl | hi
    · simp
    · split_ifs at hi
      · obtain rfl := List.mem_singleton.1 hi
        simp
      · cases hi
  · split_ifs at hs
    · obtain rfl := List.mem_singleton.1 hs
      obtain rfl := List.mem_singleton.1 hi
      simp
    · cases hs

/-- An artifact before it is written. -/
structure Plan where
  name : String
  sections : List Section
  source : Option TypeSource

/-- The lines of a planned artifact. -/
def Plan.lineList (p : Plan) (options : Options) : List String :=
  Step.lineList (artifactSteps options p.sections p.source)

/-- The plan of the artifact that holds everything. -/
def mergedPlan (api : Api) (options : Options) : Plan where
  name := moduleName options api.service ++ "." ++ options.dialect.extension
  sections := sections api options
  source := none

/-- A plan for each section. -/
def separatePlans (api : Api) (options : Options) : List Plan :=
  let stem := moduleName options api.service
  let extension := options.dialect.extension
  let types := "./" ++ stem ++ "Types"
  let declarations := if options.dialect.isTyped then Types.declarations api else []
  (if options.dialect.isTyped then [⟨stem ++ "Types.ts", [Types.emit api options], none⟩]
    else []) ++
    ⟨stem ++ "Client." ++ extension, [Client.emit api options], some ⟨types, declarations⟩⟩ ::
    if options.server then
      [⟨stem ++ "Server." ++ extension, [Server.emit api options], some ⟨types, []⟩⟩]
    else []

/-- The plans of the artifacts. -/
def plans (api : Api) (options : Options) : List Plan :=
  if options.singleFile then [mergedPlan api options] else separatePlans api options

theorem artifacts_eq (api : Api) (options : Options) (newline : Text.Newline) :
    artifacts api { options with newline } =
      (plans api options).map fun p => ⟨p.name, Writer.textOf newline (p.lineList options)⟩ := by
  obtain ⟨_, dialect, server, _, _, singleFile, _, _⟩ := options
  cases singleFile <;> cases dialect <;> cases server <;> rfl

theorem flatMap_sections_separatePlans (api : Api) (options : Options) :
    (separatePlans api options).flatMap (·.sections) = sections api options := by
  unfold separatePlans sections
  cases options.dialect <;> cases options.server <;> rfl

theorem flatMap_sections_plans (api : Api) (options : Options) :
    (plans api options).flatMap (·.sections) = sections api options := by
  unfold plans
  split
  · exact List.append_nil _
  · exact flatMap_sections_separatePlans api options

theorem plans_ne_nil (api : Api) (options : Options) : plans api options ≠ [] := by
  unfold plans separatePlans
  split <;> simp

end Stub

end HttpStubs

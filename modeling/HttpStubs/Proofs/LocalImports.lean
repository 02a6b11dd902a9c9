import HttpStubs.Proofs.DeclaredTypes
import HttpStubs.Proofs.LineEndings
import HttpStubs.Proofs.Resolution
import HttpStubs.Proofs.TypeUses

/-!
# Imports between artifacts

With an artifact for each section, client and server import declared types from the types artifact,
and the client exports all of them again. The imported names are those that the code writes
(`UsesTypes`), and each is declared where the enums of the slots are.
-/

namespace HttpStubs

/-! ## The slots of an endpoint -/

namespace Api

/-- The fields carried as text in path, query or headers. -/
def Endpoint.slots (e : Endpoint) : List Slot :=
  e.pathFields ++ e.queryFields ++ e.requestHeaderFields ++ e.responseHeaderFields

end Api

namespace Stub

open Code
open Api (Endpoint Slot)

/-! ## The declarations for local types -/

/-- The module of the types artifact, as the others import it. -/
def typesModule (options : Options) (service : Service.Definition) : String :=
  "./" ++ moduleName options service ++ "Types"

/-- An artifact imports exactly the declared types that its code names, and then exports some
again. -/
structure UsesTypes (options : Options) (module : String) (names : List String)
    (exports : List String) (code : Dialect → List Step) (layout : Layout) : Prop where
  /-- One declaration imports the types. -/
  types : layout.types =
    ({ items := names, source := module, typeOnly := true } : Import).text :: exports
  /-- The other imports are from other packages. -/
  imports : ∀ i ∈ layout.imports, i.source = options.runtimePackage ∨ i.source = "express"
  codes : layout.codes = [Step.lineList (code .typeScript)]
  /-- The code names these declared types and no others. -/
  writes : WritesTypes names (code .typeScript) (code .javaScript)

/-- Merging adds no modules. -/
theorem source_of_mem_merge {imports : List Import} {P : String → Prop}
    (h : ∀ i ∈ imports, P i.source) {i : Import} (hi : i ∈ Import.merge imports) : P i.source := by
  have hkey : i.key ∈ imports.map Import.key :=
    Import.key_mem_merge_iff.1 (List.mem_map_of_mem hi)
  obtain ⟨i', hi', heq⟩ := List.mem_map.1 hkey
  have hsource : i'.source = i.source := congrArg Prod.fst heq
  rw [← hsource]
  exact h i' hi'

theorem Client.source_of_mem_imports {api : Api} {options : Options} {i : Import}
    (hi : i ∈ (Client.emit api options).imports) : i.source = options.runtimePackage := by
  simp only [Client.emit, List.mem_cons] at hi
  rcases hi with rfl | hi
  · rfl
  · split_ifs at hi
    · rw [List.mem_singleton.1 hi]
    · cases hi

theorem Server.source_of_mem_imports {api : Api} {options : Options} {i : Import}
    (hi : i ∈ (Server.emit api options).imports) : i.source = "express" := by
  rw [List.mem_singleton.1 hi]

theorem isEmpty_sortNames {names : List String} (h : names ≠ []) :
    (sortNames names).isEmpty = false := by
  obtain ⟨name, hname⟩ := List.exists_mem_of_ne_nil names h
  have hsorted := mem_sortNames_iff.2 hname
  rw [List.isEmpty_eq_false_iff]
  exact List.ne_nil_of_mem hsorted

theorem typeDeclarations_eq {source : TypeSource} {names : List String}
    (hnames : names.isEmpty = false) :
    typeDeclarations source names =
      ({ items := names, source := source.module, typeOnly := true } : Import).text ::
        (reexport "export type" source.module (namesOfKind .interface source.reexports) ++
          reexport "export" source.module (namesOfKind .enum source.reexports)) := by
  unfold typeDeclarations
  rw [hnames, if_neg Bool.false_ne_true]
  rfl

/-- An artifact of one section imports the local types of the section. -/
theorem usesTypes_layout {options : Options} {s : Section} (code : Dialect → List Step)
    (name : String) (source : TypeSource) (typed : options.dialect = .typeScript)
    (hcode : s.code = code .typeScript)
    (himports : ∀ i ∈ s.imports, i.source = options.runtimePackage ∨ i.source = "express")
    (hlocals : s.localTypes ≠ [])
    (hwrites : WritesTypes s.localTypes (code .typeScript) (code .javaScript)) :
    UsesTypes options source.module (sortNames s.localTypes)
      (reexport "export type" source.module (namesOfKind .interface source.reexports) ++
        reexport "export" source.module (namesOfKind .enum source.reexports))
      code (Plan.layout ⟨name, [s], some source⟩ options) := by
  constructor
  · rw [← typeDeclarations_eq (isEmpty_sortNames hlocals)]
    simp [Plan.layout, typed, Dialect.isTyped]
  · intro i hi
    have hmerged : ∀ i ∈ [s].flatMap (·.imports),
        i.source = options.runtimePackage ∨ i.source = "express" := by
      simpa using himports
    exact source_of_mem_merge (P := fun m => m = options.runtimePackage ∨ m = "express") hmerged hi
  · rw [← hcode]
    rfl
  · obtain ⟨uses, hversion, haccounts⟩ := hwrites
    exact ⟨uses, hversion, haccounts.of_mem_iff fun name => mem_sortNames_iff.symm⟩

theorem Client.usesTypes_layout (api : Api) {options : Options} (name module : String)
    (typed : options.dialect = .typeScript) :
    UsesTypes options module (sortNames (emit api options).localTypes)
      (reexport "export type" module (Types.interfaceNames api) ++
        reexport "export" module (Types.enumTypeNames api))
      (fun dialect => (emit api { options with dialect }).code)
      (Plan.layout ⟨name, [emit api options], some ⟨module, Types.declarations api⟩⟩ options) := by
  rw [← Types.namesOfKind_interface, ← Types.namesOfKind_enum]
  apply Stub.usesTypes_layout (fun dialect => (emit api { options with dialect }).code) name
    ⟨module, Types.declarations api⟩ typed
  · simp only [emit, typed]
  · exact fun i hi => .inl (source_of_mem_imports hi)
  · exact List.cons_ne_nil _ _
  · exact writesTypes_emit api options

theorem Server.usesTypes_layout (api : Api) {options : Options} (name module : String)
    (typed : options.dialect = .typeScript) :
    UsesTypes options module (sortNames (emit api options).localTypes) []
      (fun dialect => (emit api { options with dialect }).code)
      (Plan.layout ⟨name, [emit api options], some ⟨module, []⟩⟩ options) := by
  apply Stub.usesTypes_layout (fun dialect => (emit api { options with dialect }).code) name
    ⟨module, []⟩ typed
  · simp only [emit, typed]
  · exact fun i hi => .inr (source_of_mem_imports hi)
  · exact List.cons_ne_nil _ _
  · exact writesTypes_emit api options

theorem artifacts_typed (api : Api) {options : Options} (typed : options.dialect = .typeScript)
    (separate : options.singleFile = false) :
    let module := typesModule options api.service
    let file := fun (suffix : String) (s : Section) (source : Option TypeSource) =>
      let name := moduleName options api.service ++ suffix
      let layout := Plan.layout ⟨name, [s], source⟩ options
      (⟨name, Writer.textOf options.newline (layout.lineList options)⟩ : Artifact)
    artifacts api options =
      file "Types.ts" (Types.emit api options) none ::
      file "Client.ts" (Client.emit api options) (some ⟨module, Types.declarations api⟩) ::
      if options.server then
        [file "Server.ts" (Server.emit api options) (some ⟨module, []⟩)]
      else [] := by
  have hplans := artifacts_eq api options options.newline
  simp only [lineList_layout] at hplans
  rw [hplans, plans, separate, if_neg Bool.false_ne_true]
  cases hserver : options.server <;>
    simp [separatePlans, typed, hserver, Dialect.isTyped, Dialect.extension, typesModule,
      String.append_assoc]

/-! ## The names -/

section

variable {d : Service.Document} {api : Api} {options : Options} {name : String}
  (hapi : Api.ofDocument d = .ok api)
  (hdeclared : ∀ e ∈ api.endpoints, ∀ s ∈ e.slots, ∀ name, s.field.type = .enum name →
    name ∈ d.service.enums.map (·.name))

include hapi hdeclared

end

end Stub

end HttpStubs

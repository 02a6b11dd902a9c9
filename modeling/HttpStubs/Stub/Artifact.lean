import HttpStubs.Stub.Client
import HttpStubs.Stub.Server
import HttpStubs.Stub.Types

/-!
# Artifacts

An artifact is a file to be written: a header, the imports, the sections and the boolean reader if
one of them calls it. The sections go into one artifact or into one each; in the second case client
and server import the declared types, and the client exports them again.
-/

namespace HttpStubs.Stub

open Code

/-- A file to be written. -/
structure Artifact where
  /-- The name relative to the output directory. -/
  name : String
  content : String
  deriving DecidableEq, Repr

/-- Where declared types are imported from, and which of them are exported again. -/
structure TypeSource where
  module : String
  reexports : List Declaration := []

/-- Inserts a name into a list in strict order, unless it is there. -/
def insertName (name : String) : List String → List String
  | [] => [name]
  | other :: others =>
    if name < other then name :: other :: others
    else if name = other then other :: others
    else other :: insertName name others

/-- The names in order, each once. -/
def sortNames (names : List String) : List String :=
  names.foldl (fun sorted name => insertName name sorted) []

/-- The first lines of an artifact. -/
def headerSteps (options : Options) : List Step :=
  .line ("// DO NOT EDIT: generated by " ++ options.generatorName) ::
    (if options.disableEslint then [.line "/* eslint-disable */"] else []) ++
    if options.dialect.isTyped then [] else [.line "'use strict';"]

/-- The names of the declarations of one kind. -/
def namesOfKind (kind : DeclarationKind) (declarations : List Declaration) : List String :=
  (declarations.filter (·.kind = kind)).map (·.name)

/-- A declaration that exports names of another module; none if there are no names. -/
def reexport (keyword module : String) (names : List String) : List String :=
  if names.isEmpty then []
  else [keyword ++ " " ++ braced names ++ " from " ++ literal module ++ ";"]

/-- The declarations that import the types of other artifacts and export them again. -/
def typeDeclarations (source : TypeSource) (names : List String) : List String :=
  (if names.isEmpty then []
    else [({ items := names, source := source.module, typeOnly := true } : Import).text]) ++
    reexport "export type" source.module (namesOfKind .interface source.reexports) ++
    reexport "export" source.module (namesOfKind .enum source.reexports)

/-- The declarations in front of the sections. -/
def declarationLines (options : Options) (sections : List Section) (source : Option TypeSource) :
    List String :=
  (Import.merge (sections.flatMap (·.imports))).map (·.text) ++
    match source with
    | some source =>
      if options.dialect.isTyped then
        typeDeclarations source (sortNames (sections.flatMap (·.localTypes)))
      else []
    | none => []

/-- The steps that write an artifact. -/
def artifactSteps (options : Options) (sections : List Section) (source : Option TypeSource) :
    List Step :=
  let declarations := declarationLines options sections source
  headerSteps options ++
    (if declarations.isEmpty then [] else .blank :: declarations.map .line) ++
    sections.flatMap (fun s => [.blank, .append s.code]) ++
    if sections.any (·.parsesBoolean) then [.blank, .lines (booleanReader options.dialect)] else []

/-- The content of an artifact. -/
def assemble (options : Options) (sections : List Section) (source : Option TypeSource) : String :=
  (Step.runAll (artifactSteps options sections source) {}).text options.newline

/-- The stem of the artifact names. -/
def moduleName (options : Options) (service : Service.Definition) : String :=
  options.moduleName.getD (Text.uncapitalize service.name)

/-- Everything in one artifact. -/
def mergedArtifact (api : Api) (options : Options) : Artifact where
  name := moduleName options api.service ++ "." ++ options.dialect.extension
  content :=
    assemble options
      ((if options.dialect.isTyped then [Types.emit api options] else []) ++
        Client.emit api options ::
        if options.server then [Server.emit api options] else [])
      none

/-- An artifact for each section: types (in the typed dialect), client, server (if wanted). -/
def separateArtifacts (api : Api) (options : Options) : List Artifact :=
  let stem := moduleName options api.service
  let extension := options.dialect.extension
  let types := "./" ++ stem ++ "Types"
  let declarations := if options.dialect.isTyped then Types.declarations api else []
  (if options.dialect.isTyped then
    [⟨stem ++ "Types.ts", assemble options [Types.emit api options] none⟩] else []) ++
    ⟨stem ++ "Client." ++ extension,
      assemble options [Client.emit api options] (some ⟨types, declarations⟩)⟩ ::
    if options.server then
      [⟨stem ++ "Server." ++ extension,
        assemble options [Server.emit api options] (some ⟨types, []⟩)⟩]
    else []

/-- The artifacts of an API. -/
def artifacts (api : Api) (options : Options) : List Artifact :=
  if options.singleFile then [mergedArtifact api options] else separateArtifacts api options

/-- The artifacts of a document. -/
def generate (document : Service.Document) (options : Options) :
    Except Api.Fault (List Artifact) := do
  return artifacts (← Api.ofDocument document) options

end HttpStubs.Stub

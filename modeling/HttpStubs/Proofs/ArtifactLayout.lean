import Mathlib.Algebra.Ring.Nat
import Mathlib.Data.List.Basic
import HttpStubs.Proofs.ArtifactPlans
import HttpStubs.Proofs.ImportMerge
import HttpStubs.Proofs.Traversal
import HttpStubs.Proofs.WrittenLines

/-!
# Layout of artifacts

An artifact is laid out as its header and then, block by block, the declarations, the code of each
section and the boolean reader; a blank line stands between blocks unless the line above opens a
bracket (`spaced`). Everything in one artifact is the same code as the separate artifacts hold, with
the imports of all of them and no declarations for types of other artifacts.
-/

namespace HttpStubs

open Code

/-! ## Lines of a text -/

namespace Text

/-- Whether a text is one line. -/
def IsLine (s : String) : Prop :=
  s ≠ "" ∧ '\n' ∉ s.toList ∧ '\r' ∉ s.toList

theorem linesFrom_append {cs : List Char} (hlf : '\n' ∉ cs) (hcr : '\r' ∉ cs)
    (line rest : List Char) :
    linesFrom line (cs ++ rest) = linesFrom (cs.reverse ++ line) rest := by
  induction cs generalizing line with
  | nil => rfl
  | cons c cs ih =>
    rw [List.mem_cons, not_or] at hlf hcr
    rw [List.cons_append, linesFrom, ih hlf.2 hcr.2, List.reverse_cons, List.append_assoc,
      List.singleton_append]
    · exact fun h => hlf.1 h.symm
    · exact fun _ h => absurd h.symm hcr.1

theorem lines_intercalate {ls : List String} (h : ∀ l ∈ ls, IsLine l) :
    lines ("\n".intercalate ls) = ls := by
  rw [lines, String.toList_intercalate]
  induction ls with
  | nil => rfl
  | cons l ls ih =>
    obtain ⟨hne, hlf, hcr⟩ := h l List.mem_cons_self
    cases ls with
    | nil =>
      have hfirst := linesFrom_append hlf hcr [] []
      simpa [linesFrom, hne] using hfirst
    | cons l' ls =>
      have hrest := ih fun l hl => h l (List.mem_cons_of_mem _ hl)
      rw [List.map_cons, List.map_cons, List.intercalate_cons_cons, List.append_assoc,
        linesFrom_append hlf hcr]
      simpa [linesFrom] using hrest

end Text

/-! ## Blocks of lines -/

namespace Code.Writer

/-- Whether a blank line is written after these lines. -/
def allowsBlank (above : List String) : Bool :=
  above.getLast?.any fun last => !refusesBlank last

/-- A block of lines below others, with a blank line between where it is allowed. -/
def spaced (above block : List String) : List String :=
  if block.isEmpty then above
  else above ++ (if allowsBlank above then [""] else []) ++ block

/-- The lines of a writer that does not indent. -/
def Shows (w : Writer) (ls : List String) : Prop :=
  w.depth = 0 ∧ w.written.reverse = ls

theorem reverse_written_flushBlank (w : Writer) :
    w.blank.flushBlank.written.reverse =
      w.written.reverse ++ if allowsBlank w.written.reverse then [""] else [] := by
  unfold flushBlank blank allowsBlank
  rw [if_pos rfl, List.getLast?_reverse]
  cases w.written with
  | nil => rfl
  | cons last rest => cases h : refusesBlank last <;> simp [h]

theorem Shows.line {w : Writer} {ls : List String} (h : Shows w ls) (calm : w.pendingBlank = false)
    (text : String) : Shows (w.line text) (ls ++ [text]) := by
  have hflush : w.flushBlank = w := by simp [flushBlank, calm]
  refine ⟨by simpa using h.1, ?_⟩
  rw [written_line, hflush, h.1, indented_zero, List.reverse_cons, h.2]

theorem Shows.lineAll {w : Writer} {ls : List String} (h : Shows w ls)
    (calm : w.pendingBlank = false) (texts : List String) :
    Shows (w.lineAll texts) (ls ++ texts) := by
  induction texts generalizing w ls with
  | nil => simpa using h
  | cons text texts ih =>
    have hnext := ih (h.line calm text) (w.pendingBlank_line text)
    simpa using hnext

/-- Lines written after a request for a blank line are a block of their own. -/
theorem Shows.block {w : Writer} {ls : List String} (h : Shows w ls) (texts : List String) :
    Shows (w.blank.lineAll texts) (spaced ls texts) := by
  cases texts with
  | nil => exact h
  | cons text texts =>
    have hfirst : Shows (w.blank.line text)
        (ls ++ (if allowsBlank ls then [""] else []) ++ [text]) := by
      refine ⟨by simpa using h.1, ?_⟩
      have hdepth : w.blank.depth = 0 := h.1
      rw [written_line, hdepth, indented_zero, List.reverse_cons, reverse_written_flushBlank, h.2]
    have hall := hfirst.lineAll (Writer.pendingBlank_line _ _) texts
    simpa [spaced] using hall

theorem Shows.append {w other : Writer} {ls : List String}
    (h : Shows (w.lineAll other.written.reverse) ls) : Shows (w.append other) ls := by
  refine ⟨?_, ?_⟩
  · rw [depth_append, ← depth_lineAll w other.written.reverse]
    exact h.1
  · rw [written_append]
    exact h.2

end Code.Writer

namespace Stub

/-! ## The layout of an artifact -/

/-- What an artifact shows below its header. -/
structure Layout where
  /-- The imports from modules that are not part of the artifacts. -/
  imports : List Import
  /-- The declarations for the types of other artifacts. -/
  types : List String
  /-- The code of each section. -/
  codes : List (List String)
  /-- Whether the boolean reader is defined. -/
  reader : Bool

/-- The first lines of an artifact. -/
def headerLines (options : Options) : List String :=
  ("// DO NOT EDIT: generated by " ++ options.generatorName) ::
    (if options.disableEslint then ["/* eslint-disable */"] else []) ++
    if options.dialect.isTyped then [] else ["'use strict';"]

/-- The blocks of lines below the header. -/
def Layout.blocks (l : Layout) (dialect : Dialect) : List (List String) :=
  (l.imports.map (·.text) ++ l.types) :: l.codes ++
    [if l.reader then Text.lines (booleanReader dialect) else []]

/-- The lines of an artifact. -/
def Layout.lineList (l : Layout) (options : Options) : List String :=
  (l.blocks options.dialect).foldl Writer.spaced (headerLines options)

/-- The layout of a planned artifact. -/
def Plan.layout (p : Plan) (options : Options) : Layout where
  imports := Import.merge (p.sections.flatMap (·.imports))
  types :=
    match p.source with
    | some source =>
      if options.dialect.isTyped then
        typeDeclarations source (sortNames (p.sections.flatMap (·.localTypes)))
      else []
    | none => []
  codes := p.sections.map fun s => Step.lineList s.code
  reader := p.sections.any (·.parsesBoolean)

open Writer (Shows)

theorem shows_header (options : Options) :
    Shows (Step.runAll (headerSteps options) {}) (headerLines options) := by
  obtain ⟨_, dialect, _, _, eslint, _, _, _⟩ := options
  cases eslint <;> cases dialect <;> exact ⟨rfl, rfl⟩

theorem shows_declarations {w : Writer} {ls : List String} (h : Shows w ls) (texts : List String) :
    Shows (Step.runAll (if texts.isEmpty then [] else .blank :: texts.map .line) w)
      (Writer.spaced ls texts) := by
  have hlines : ∀ w, Step.runAll (texts.map .line) w = w.lineAll texts := by
    induction texts with
    | nil => exact fun w => rfl
    | cons text texts ih => exact fun w => ih (w.line text)
  split_ifs with hempty
  · rw [List.isEmpty_iff.1 hempty]
    exact h
  · rw [Step.runAll, hlines]
    exact h.block texts

theorem shows_sections {w : Writer} {ls : List String} (h : Shows w ls) (sections : List Section) :
    Shows (Step.runAll (sections.flatMap fun s => [.blank, .append s.code]) w)
      ((sections.map fun s => Step.lineList s.code).foldl Writer.spaced ls) := by
  induction sections generalizing w ls with
  | nil => exact h
  | cons s sections ih =>
    rw [List.flatMap_cons, Step.runAll_append, List.map_cons, List.foldl_cons]
    exact ih (h.block _).append

theorem shows_reader {w : Writer} {ls : List String} (h : Shows w ls) (defined : Bool)
    (source : String) :
    Shows (Step.runAll (if defined then [.blank, .lines source] else []) w)
      (Writer.spaced ls (if defined then Text.lines source else [])) := by
  cases defined with
  | false => exact h
  | true => exact h.block (Text.lines source)

theorem lineList_layout (p : Plan) (options : Options) :
    p.lineList options = (p.layout options).lineList options := by
  have hdeclarations : declarationLines options p.sections p.source =
      (p.layout options).imports.map (·.text) ++ (p.layout options).types := by
    obtain ⟨_, _, source⟩ := p
    cases source <;> rfl
  -- Every part asks for a blank line first, so only the lines above decide whether there is one.
  have hshows : Shows (Step.runAll (artifactSteps options p.sections p.source) {})
      ((p.layout options).lineList options) := by
    unfold artifactSteps Layout.lineList Layout.blocks
    simp only [Step.runAll_append, List.foldl_append, List.foldl_cons, List.foldl_nil,
      ← hdeclarations]
    exact shows_reader (shows_sections (shows_declarations (shows_header options) _) _) _ _
  exact hshows.2

/-! ## The boolean reader -/

/-- Whether a line is the head of the boolean reader. -/
def isReaderHead (l : String) : Bool :=
  "function parseBoolean(".toList.isPrefixOf l.toList

theorem isReaderHead_eq_false {l : String} (h : l.toList.head? ≠ some 'f') :
    isReaderHead l = false := by
  unfold isReaderHead
  cases hl : l.toList with
  | nil => simp
  | cons c cs =>
    have hc : c ≠ 'f' := fun heq => h (by simp [hl, heq])
    simp [List.isPrefixOf, hc.symm]

/-- No line starts as the head of the boolean reader does. -/
def Apart (ls : List String) : Prop :=
  ∀ l ∈ ls, l.toList.head? ≠ some 'f'

@[simp] theorem apart_nil : Apart [] := by
  simp [Apart]

@[simp] theorem apart_cons {l : String} {ls : List String} :
    Apart (l :: ls) ↔ l.toList.head? ≠ some 'f' ∧ Apart ls := by
  simp [Apart]

@[simp] theorem apart_append {ls more : List String} :
    Apart (ls ++ more) ↔ Apart ls ∧ Apart more := by
  simp [Apart, or_imp, forall_and]

@[simp] theorem apart_flatMap {α : Type} {xs : List α} {f : α → List String} :
    Apart (xs.flatMap f) ↔ ∀ x ∈ xs, Apart (f x) := by
  simp only [Apart, List.mem_flatMap]
  exact ⟨fun h x hx l hl => h l ⟨x, hx, hl⟩, fun h l ⟨x, hx, hl⟩ => h x hx l hl⟩

theorem Apart.countP_eq_zero {ls : List String} (h : Apart ls) : ls.countP isReaderHead = 0 :=
  List.countP_eq_zero.2 fun l hl => by simp [isReaderHead_eq_false (h l hl)]

/-- The lines of steps start as the texts at their depth do, or with a tab. -/
theorem Apart.lineList {steps : List Step} (h : Apart (Step.outerAll steps)) :
    Apart (Step.lineList steps) := by
  intro l hl
  rcases Step.mem_written_runAll steps (List.mem_reverse.1 hl) with hl | rfl | ⟨t, ht, rfl⟩ | htab
  · cases hl
  · simp
  · rw [Writer.indented_zero]
    exact h t ht
  · obtain ⟨rest, hrest⟩ := htab
    simp [← hrest, Writer.tabs]

@[simp] theorem apart_docComment (comment : DocComment) : Apart (Step.outerAll comment.steps) := by
  obtain ⟨lines⟩ := comment
  match lines with
  | [] => exact apart_nil
  | [line] => simp [DocComment.steps, Step.outer]
  | first :: second :: rest =>
    simp [DocComment.steps, Step.outer, Step.outerAll_eq_flatMap, List.flatMap_map]

theorem apart_types (api : Api) (options : Options) :
    Apart (Step.lineList (Types.emit api options).code) := by
  apply Apart.lineList
  simp [Types.emit, Types.serviceSteps, Types.endpointSteps, Types.dtoSteps, Types.enumSteps,
    Types.recordSteps, Step.braces, Step.outer]

theorem apart_client (api : Api) (options : Options) :
    Apart (Step.lineList (Client.emit api options).code) := by
  have hbindings : Apart (Step.outerAll (Client.utilityBindings api options.dialect)) := by
    unfold Client.utilityBindings
    split_ifs <;> simp [Step.outer]
  apply Apart.lineList
  simp [Client.emit, Client.factory, Client.classSteps, hbindings, Step.braces, Step.outer]

theorem apart_server (api : Api) (options : Options) :
    Apart (Step.lineList (Server.emit api options).code) := by
  apply Apart.lineList
  simp [Server.emit, Server.errorTable, Server.appSteps, Step.braces, Step.outer]

theorem apart_of_mem_sections {api : Api} {options : Options} {s : Section}
    (h : s ∈ sections api options) : Apart (Step.lineList s.code) := by
  simp only [sections, List.mem_append, List.mem_cons] at h
  rcases h with h | rfl | h
  · split_ifs at h
    · rw [List.mem_singleton.1 h]
      exact apart_types api options
    · cases h
  · exact apart_client api options
  · split_ifs at h
    · rw [List.mem_singleton.1 h]
      exact apart_server api options
    · cases h

theorem apart_declarations (l : Plan) (options : Options) :
    Apart ((l.layout options).imports.map (·.text) ++ (l.layout options).types) := by
  have htext : ∀ i : Import, i.text.toList.head? ≠ some 'f' := by
    intro i
    unfold Import.text
    split_ifs <;> simp
  have hreexport : ∀ module names, Apart (reexport "export" module names) ∧
      Apart (reexport "export type" module names) := by
    intro module names
    unfold reexport
    split_ifs <;> simp
  refine apart_append.2 ⟨by simpa [Apart] using fun i _ => htext i, ?_⟩
  unfold Plan.layout
  split
  next source =>
    split_ifs
    · unfold typeDeclarations
      refine apart_append.2 ⟨apart_append.2 ⟨?_, (hreexport _ _).2⟩, (hreexport _ _).1⟩
      split_ifs
      · exact apart_nil
      · simp [htext]
    · exact apart_nil
  next => exact apart_nil

theorem apart_header (options : Options) : Apart (headerLines options) := by
  unfold headerLines
  split_ifs <;> simp

theorem countP_spaced (above block : List String) :
    (Writer.spaced above block).countP isReaderHead =
      above.countP isReaderHead + block.countP isReaderHead := by
  have hempty : isReaderHead "" = false := rfl
  unfold Writer.spaced
  split_ifs with hblock
  · rw [List.isEmpty_iff.1 hblock, List.countP_nil, Nat.add_zero]
  · simp [hempty]
  · simp

theorem countP_foldl_spaced (above : List String) (blocks : List (List String)) :
    (blocks.foldl Writer.spaced above).countP isReaderHead =
      above.countP isReaderHead + (blocks.map (·.countP isReaderHead)).sum := by
  induction blocks generalizing above with
  | nil => rfl
  | cons block blocks ih =>
    rw [List.foldl_cons, ih, countP_spaced, List.map_cons, List.sum_cons, Nat.add_assoc]

theorem countP_booleanReader (dialect : Dialect) :
    (Text.lines (booleanReader dialect)).countP isReaderHead = 1 := by
  rw [booleanReader, Text.lines_intercalate]
  · cases dialect <;> simp [isReaderHead, Dialect.onlyTyped, Dialect.isTyped]
  · cases dialect <;> simp [Text.IsLine, Dialect.onlyTyped, Dialect.isTyped]

/-- The boolean reader is defined at most once, and only where a section calls it. -/
theorem countP_isReaderHead {api : Api} {options : Options} {p : Plan}
    (hsections : ∀ s ∈ p.sections, s ∈ sections api options) :
    ((p.layout options).lineList options).countP isReaderHead =
      if (p.layout options).reader then 1 else 0 := by
  have hcodes : ((p.layout options).codes.map (·.countP isReaderHead)).sum = 0 := by
    rw [List.sum_eq_zero_iff_forall_eq_nat]
    simp only [Plan.layout, List.map_map, List.mem_map]
    rintro n ⟨s, hs, rfl⟩
    exact (apart_of_mem_sections (hsections s hs)).countP_eq_zero
  have hreader : (if (p.layout options).reader then Text.lines (booleanReader options.dialect)
      else []).countP isReaderHead = if (p.layout options).reader then 1 else 0 := by
    split_ifs
    · exact countP_booleanReader options.dialect
    · rfl
  rw [Layout.lineList, countP_foldl_spaced, (apart_header options).countP_eq_zero, Layout.blocks]
  simp only [List.cons_append, List.map_cons, List.map_append, List.sum_cons, List.sum_append,
    (apart_declarations p options).countP_eq_zero, hcodes, hreader, List.map_nil, List.sum_nil,
    Nat.zero_add, Nat.add_zero]

/-! ## One artifact and many -/

theorem mem_bound_layout {api : Api} {options : Options} {p : Plan}
    (hsections : ∀ s ∈ p.sections, s ∈ sections api options) (b : Import.Bound) :
    b ∈ (p.layout options).imports.flatMap Import.bound ↔
      b ∈ p.sections.flatMap fun s => s.imports.flatMap Import.bound := by
  rw [← List.flatMap_assoc]
  refine Import.mem_bound_merge "express" (fun i hi => ?_) b
  obtain ⟨s, hs, hi⟩ := List.mem_flatMap.1 hi
  exact (import_of_mem_sections (hsections s hs) hi).1

theorem sections_of_mem_separatePlans {api : Api} {options : Options} {p : Plan}
    (hp : p ∈ separatePlans api options) : ∀ s ∈ p.sections, s ∈ sections api options := by
  intro s hs
  rw [← flatMap_sections_separatePlans]
  exact List.mem_flatMap.2 ⟨p, hp, hs⟩

theorem mem_bound_mergedPlan (api : Api) (options : Options) (b : Import.Bound) :
    b ∈ ((mergedPlan api options).layout options).imports.flatMap Import.bound ↔
      ∃ p ∈ separatePlans api options, b ∈ (p.layout options).imports.flatMap Import.bound := by
  rw [mem_bound_layout fun s hs => hs]
  have hparts : (∃ p ∈ separatePlans api options,
      b ∈ (p.layout options).imports.flatMap Import.bound) ↔
      ∃ p ∈ separatePlans api options,
        b ∈ p.sections.flatMap fun s => s.imports.flatMap Import.bound :=
    exists_congr fun p => and_congr_right fun hp =>
      mem_bound_layout (sections_of_mem_separatePlans hp) b
  have hall : (sections api options).flatMap (fun s => s.imports.flatMap Import.bound) =
      (separatePlans api options).flatMap fun p =>
        p.sections.flatMap fun s => s.imports.flatMap Import.bound := by
    rw [← flatMap_sections_separatePlans, List.flatMap_assoc]
  rw [hparts, ← List.mem_flatMap, ← hall]
  rfl

theorem codes_separatePlans (api : Api) (options : Options) :
    (separatePlans api options).map (fun p => (p.layout options).codes) =
      (sections api options).map fun s => [Step.lineList s.code] := by
  unfold separatePlans sections
  cases options.dialect <;> cases options.server <;> rfl

theorem reader_mergedPlan (api : Api) (options : Options) :
    ((mergedPlan api options).layout options).reader =
      (separatePlans api options).any fun p => (p.layout options).reader := by
  have hany : ((separatePlans api options).flatMap (·.sections)).any (·.parsesBoolean) =
      (separatePlans api options).any fun p => p.sections.any (·.parsesBoolean) :=
    List.any_flatMap
  rw [flatMap_sections_separatePlans] at hany
  exact hany

/-- A plan whose sections are those of the API defines the reader exactly if its layout says so. -/
theorem any_isReaderHead {api : Api} {options : Options} {p : Plan}
    (hsections : ∀ s ∈ p.sections, s ∈ sections api options) :
    ((p.layout options).lineList options).any isReaderHead = (p.layout options).reader := by
  have hcount := countP_isReaderHead hsections
  cases hreader : (p.layout options).reader with
  | false =>
    rw [hreader, if_neg Bool.false_ne_true, List.countP_eq_zero] at hcount
    simpa using hcount
  | true =>
    rw [hreader, if_pos rfl] at hcount
    rw [List.any_eq_true, ← List.countP_pos_iff, hcount]
    exact Nat.one_pos

theorem any_separatePlans (api : Api) (options : Options) :
    ((separatePlans api options).map (·.layout options)).any
        (fun p => (p.lineList options).any isReaderHead) =
      ((mergedPlan api options).layout options).reader := by
  rw [reader_mergedPlan, List.any_map, Bool.eq_iff_iff, List.any_eq_true, List.any_eq_true]
  refine exists_congr fun p => and_congr_right fun hp => ?_
  rw [Function.comp_apply, any_isReaderHead (sections_of_mem_separatePlans hp)]

/-- Everything in one artifact, compared with an artifact for each section. Both write the code of
the sections, the one block after block, the others a block each. The one artifact has one import
for each module and kind, and its imports bind the names that the others import from outside; it has
no declarations for types of other artifacts; and it defines the boolean reader once if one of the
others does, otherwise not at all. -/
theorem merged_holds_separate {d : Service.Document} {options : Options} {made : List Artifact}
    (h : generate d options = .ok made) :
    ∃ api merged separate, Api.ofDocument d = .ok api ∧
      generate d { options with singleFile := true } = .ok [merged] ∧
      generate d { options with singleFile := false } = .ok separate ∧
      let whole := (mergedPlan api options).layout options
      let parts := (separatePlans api options).map (·.layout options)
      merged.content = Writer.textOf options.newline (whole.lineList options) ∧
      separate.map (·.content) =
        parts.map (fun p => Writer.textOf options.newline (p.lineList options)) ∧
      whole.codes = (sections api options).map (fun s => Step.lineList s.code) ∧
      parts.map (·.codes) = whole.codes.map ([·]) ∧
      (whole.imports.map Import.key).Nodup ∧
      (∀ b, b ∈ whole.imports.flatMap Import.bound ↔
        ∃ p ∈ parts, b ∈ p.imports.flatMap Import.bound) ∧
      whole.types = [] ∧
      (whole.lineList options).countP isReaderHead =
        if parts.any (fun p => (p.lineList options).any isReaderHead) then 1 else 0 := by
  obtain ⟨api, hapi, h⟩ := bind_eq_ok_iff.1 h
  have hgenerate : ∀ options, generate d options = .ok (artifacts api options) :=
    fun options => bind_eq_ok_iff.2 ⟨api, hapi, rfl⟩
  have hmerged := artifacts_eq api { options with singleFile := true } options.newline
  have hseparate := artifacts_eq api { options with singleFile := false } options.newline
  have hcodes : ((mergedPlan api options).layout options).codes =
      (sections api options).map fun s => Step.lineList s.code := rfl
  refine ⟨api, _, _, hapi, (hgenerate _).trans (congrArg _ hmerged),
    (hgenerate _).trans (congrArg _ hseparate), ?_, ?_, hcodes, ?_, Import.keys_merge_nodup _, ?_,
    rfl, ?_⟩
  · rw [← lineList_layout]
    rfl
  · simp only [List.map_map, Function.comp_def, ← lineList_layout]
    rfl
  · rw [List.map_map, hcodes, List.map_map]
    exact codes_separatePlans api options
  · intro b
    rw [mem_bound_mergedPlan]
    simp
  · rw [any_separatePlans]
    exact countP_isReaderHead fun s hs => hs

/-! ## A runtime package with the name of the router's -/

def switchMethod : Service.Method where
  name := "setSwitch"
  requestFields := [{ name := "on", type := .boolean }]

/-- A document whose server calls the boolean reader. -/
def switchDocument : Service.Document where
  service := { name := "Switches", methods := [switchMethod] }
  http := {
    methods := [{
      name := "setSwitch"
      verb := .post
      path := "/switch"
      queryFields := [⟨"on", "on"⟩] }] }

def switchApi : Api where
  service := switchDocument.service
  baseUri := none
  endpoints := [{
    method := switchMethod
    verb := .post
    path := [.text "/switch"]
    pathFields := []
    queryFields := [⟨{ name := "on", type := .boolean }, "on", .boolean⟩]
    requestHeaderFields := []
    requestBody := .none
    responseHeaderFields := []
    responses := [] }]

def switchOptions : Options where
  server := true
  runtimePackage := "express"

/-- One declaration imports the router and the client's functions, and one the types. -/
theorem switch_merged :
    ∃ merged separate, generate switchDocument { switchOptions with singleFile := true } =
        .ok [merged] ∧
      generate switchDocument { switchOptions with singleFile := false } = .ok separate ∧
      separate.length = 3 ∧
      ∃ whole : Layout, merged.content = Writer.textOf .lf (whole.lineList switchOptions) ∧
        whole.imports.map Import.key = [("express", true), ("express", false)] ∧
        whole.types = [] ∧ (whole.lineList switchOptions).countP isReaderHead = 1 := by
  have h : generate switchDocument switchOptions = .ok (artifacts switchApi switchOptions) := rfl
  obtain ⟨api, merged, separate, hapi, hmerged, hseparate, hcontent, hcontents, -, -, -, -, htypes,
    hreader⟩ := merged_holds_separate h
  obtain rfl : switchApi = api := Except.ok.inj hapi
  refine ⟨merged, separate, hmerged, hseparate, ?_, _, hcontent, rfl, htypes, ?_⟩
  · have hlength := congrArg List.length hcontents
    simpa [separatePlans, switchOptions, Dialect.isTyped] using hlength
  · rw [hreader, any_separatePlans]
    rfl

end Stub

end HttpStubs

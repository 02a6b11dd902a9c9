import Mathlib.Algebra.Ring.Nat
import Mathlib.Data.List.Basic
import Mathlib.Tactic.Tauto
import HttpStubs.Proofs.ArtifactPlans
import HttpStubs.Proofs.ImportMerge
import HttpStubs.Proofs.RawTexts
import HttpStubs.Proofs.Traversal

/-!
# Line endings of artifacts

Artifacts with CRLF are artifacts with LF in which each line feed is replaced, exactly if no text
that is written as it is (`rawTexts`) holds a line feed. A line feed inside a line stays alone: it
makes the replaced text longer, so that one such line in one artifact is enough.
-/

namespace HttpStubs

open Code

/-! ## Replacing line feeds -/

namespace Text

/-- The text with a carriage return before each line feed. -/
def toCrlf (s : String) : String :=
  String.ofList (s.toList.flatMap fun c => if c = '\n' then ['\r', '\n'] else [c])

theorem toCrlf_append (s t : String) : toCrlf (s ++ t) = toCrlf s ++ toCrlf t := by
  simp [toCrlf]

theorem toCrlf_of_not_mem {s : String} (h : '\n' ∉ s.toList) : toCrlf s = s := by
  have hkeep : ∀ c ∈ s.toList, (if c = '\n' then ['\r', '\n'] else [c]) = [c] := by
    intro c hc
    rw [if_neg]
    rintro rfl
    exact h hc
  rw [toCrlf, List.flatMap_congr hkeep, List.flatMap_singleton', String.ofList_toList]

theorem length_toCrlf (s : String) : (toCrlf s).length = s.length + s.toList.count '\n' := by
  rw [toCrlf, String.length_ofList, ← String.length_toList]
  induction s.toList with
  | nil => rfl
  | cons c cs ih =>
    by_cases hc : c = '\n' <;> simp [hc, ih] <;> omega

end Text

namespace Code.Writer

open Text (toCrlf)

theorem toCrlf_textOf {ls : List String} (h : ¬Holds '\n' ls) :
    toCrlf (textOf .lf ls) = textOf .crlf ls := by
  induction ls with
  | nil => rfl
  | cons l ls ih =>
    rw [holds_cons, not_or] at h
    rw [textOf_cons, textOf_cons, Text.toCrlf_append, Text.toCrlf_append, ih h.2,
      Text.toCrlf_of_not_mem h.1]
    rfl

/-- Each line feed inside a line makes the replaced text longer by one character. -/
theorem length_toCrlf_textOf (ls : List String) :
    (toCrlf (textOf .lf ls)).length =
      (textOf .crlf ls).length + (ls.map fun l => l.toList.count '\n').sum := by
  induction ls with
  | nil => rfl
  | cons l ls ih =>
    have hlf : (toCrlf (Text.Newline.text .lf)).length = 2 := rfl
    have hcrlf : (Text.Newline.text .crlf).length = 2 := rfl
    rw [textOf_cons, textOf_cons, Text.toCrlf_append, Text.toCrlf_append]
    simp only [String.length_append, ih, hlf, hcrlf, Text.length_toCrlf, List.map_cons,
      List.sum_cons]
    omega

theorem textOf_crlf_iff {ls : List String} :
    textOf .crlf ls = toCrlf (textOf .lf ls) ↔ ¬Holds '\n' ls := by
  refine ⟨fun h => ?_, fun h => (toCrlf_textOf h).symm⟩
  rintro ⟨l, hl, hlf⟩
  have hlen := congrArg String.length h
  rw [length_toCrlf_textOf] at hlen
  have hzero : (ls.map fun l => l.toList.count '\n').sum = 0 := by omega
  have hcount := List.sum_eq_zero_iff_forall_eq_nat.1 hzero _ (List.mem_map_of_mem hl)
  exact absurd hlf (List.count_eq_zero.1 hcount)

end Code.Writer

namespace Stub

/-! ## Artifacts -/

/-- The texts that the artifacts hold as they are. -/
def rawTexts (api : Api) (options : Options) : List String :=
  options.generatorName :: (if options.dialect.isTyped then Types.rawTexts api else []) ++
    Client.rawTexts api options.dialect ++
    if options.server then Server.rawTexts api options.dialect else []

theorem mem_insertName_iff {name other : String} {names : List String} :
    other ∈ insertName name names ↔ other = name ∨ other ∈ names := by
  fun_induction insertName name names with
  | case1 => simp
  | case2 head names hlt => rw [List.mem_cons]
  | case3 names hlt => simp
  | case4 head names hlt hne ih => rw [List.mem_cons, ih, List.mem_cons, or_left_comm]

theorem mem_sortNames_iff {name : String} {names : List String} :
    name ∈ sortNames names ↔ name ∈ names := by
  have hfold : ∀ sorted, name ∈ names.foldl (fun sorted name => insertName name sorted) sorted ↔
      name ∈ sorted ∨ name ∈ names := by
    induction names with
    | nil => simp
    | cons other names ih =>
      intro sorted
      rw [List.foldl_cons, ih, mem_insertName_iff, List.mem_cons, or_assoc, or_left_comm]
  rw [sortNames, hfold, List.mem_nil_iff, false_or]

theorem holds_sortNames {c : Char} {names : List String} :
    Holds c (sortNames names) ↔ Holds c names := by
  simp only [Holds, mem_sortNames_iff]

/-- No section imports a name with a line feed. -/
theorem not_holds_imports {api : Api} {options : Options} {s : Section}
    (hs : s ∈ sections api options) {i : Import} (hi : i ∈ s.imports) : ¬Holds '\n' i.names := by
  obtain ⟨hdefault, hitems⟩ := import_of_mem_sections hs hi
  rintro ⟨name, hname, hlf⟩
  rcases List.mem_append.1 hname with hname | hname
  · rw [hdefault name (Option.mem_toList.1 hname)] at hlf
    simp at hlf
  · have hmem := hitems name hname
    simp only [List.mem_cons, List.not_mem_nil, or_false] at hmem
    rcases hmem with rfl | rfl | rfl | rfl <;>
      simp [serviceResult, serviceError, Client.utility, Client.optionsType] at hlf

theorem not_holds_merge {imports : List Import} (free : ∀ i ∈ imports, ¬Holds '\n' i.names) :
    ¬Holds '\n' ((Import.merge imports).map (·.text)) := by
  rw [holds_map]
  rintro ⟨i, hi, hlf⟩
  obtain ⟨name, hname, hlf⟩ := Import.lf_mem_text.1 hlf
  rcases List.mem_append.1 hname with hname | hname
  · rw [Option.mem_toList, Import.default_merge hi] at hname
    obtain ⟨x, hx, hdefault⟩ := List.exists_of_findSome?_eq_some hname
    exact free x (List.mem_filter.1 hx).1 ⟨name, by simp [Import.names, hdefault], hlf⟩
  · obtain ⟨x, hx, -, hitem⟩ := (Import.mem_items_merge hi name).1 hname
    exact free x hx ⟨name, by simp [Import.names, hitem], hlf⟩

theorem lf_mem_reexport {keyword module : String} (hkeyword : '\n' ∉ keyword.toList)
    {names : List String} : Holds '\n' (reexport keyword module names) ↔ Holds '\n' names := by
  unfold reexport
  split_ifs with hempty
  · rw [List.isEmpty_iff.1 hempty]
  · simp [hkeyword]

/-- The declarations in front of the sections hold a line feed only in names of declared types. -/
theorem holds_declarationLines {options : Options} {sections : List Section}
    {source : Option TypeSource} (free : ∀ s ∈ sections, ∀ i ∈ s.imports, ¬Holds '\n' i.names)
    (h : Holds '\n' (declarationLines options sections source)) :
    options.dialect.isTyped ∧ ∃ types, source = some types ∧
      (Holds '\n' (sections.flatMap (·.localTypes)) ∨
        Holds '\n' (types.reexports.map (·.name))) := by
  have hmerge : ¬Holds '\n' ((Import.merge (sections.flatMap (·.imports))).map (·.text)) :=
    not_holds_merge (by simpa using fun i s hs => free s hs i)
  have hkind : ∀ kind declarations, Holds '\n' (namesOfKind kind declarations) →
      Holds '\n' (declarations.map (·.name)) := by
    rintro kind declarations ⟨name, hname, hlf⟩
    obtain ⟨declaration, hmem, rfl⟩ := List.mem_map.1 hname
    exact ⟨_, List.mem_map_of_mem (List.mem_filter.1 hmem).1, hlf⟩
  unfold declarationLines at h
  rw [holds_append, or_iff_right hmerge] at h
  split at h
  next types =>
    split_ifs at h with htyped
    · refine ⟨htyped, types, rfl, ?_⟩
      rw [typeDeclarations, holds_append, holds_append, lf_mem_reexport (by simp),
        lf_mem_reexport (by simp)] at h
      rcases h with (h | h) | h
      · split_ifs at h
        · cases holds_nil h
        · rw [holds_cons, Import.lf_mem_text, or_iff_left holds_nil] at h
          exact .inl (holds_sortNames.1 h)
      · exact .inr (hkind _ _ h)
      · exact .inr (hkind _ _ h)
    · cases holds_nil h
  next => cases holds_nil h

theorem holds_artifactSteps {options : Options} {sections : List Section}
    {source : Option TypeSource} :
    Holds '\n' (Step.textsAll (artifactSteps options sections source)) ↔
      '\n' ∈ options.generatorName.toList ∨
        Holds '\n' (declarationLines options sections source) ∨
        ∃ s ∈ sections, Holds '\n' (Step.textsAll s.code) := by
  have hheader : Holds '\n' (Step.textsAll (headerSteps options)) ↔
      '\n' ∈ options.generatorName.toList := by
    unfold headerSteps
    split_ifs <;> simp [Step.texts]
  have hdeclarations : Holds '\n' (Step.textsAll
      (if (declarationLines options sections source).isEmpty then []
        else .blank :: (declarationLines options sections source).map .line)) ↔
      Holds '\n' (declarationLines options sections source) := by
    split_ifs with hempty
    · rw [List.isEmpty_iff.1 hempty]
      rfl
    · simp [Step.texts]
  have hreader : ¬Holds '\n' (Step.textsAll (if sections.any (·.parsesBoolean) then
      [.blank, .lines (booleanReader options.dialect)] else [])) := by
    split_ifs
    · simp [Step.texts, Text.lf_not_mem_lines]
    · simp
  simp only [artifactSteps, Step.textsAll_append, Step.textsAll_flatMap, Step.textsAll_cons,
    Step.textsAll_nil, Step.texts, List.nil_append, List.append_nil, holds_append, holds_flatMap,
    hheader, hdeclarations, hreader, or_false, or_assoc]

theorem exists_sections_holds (api : Api) (options : Options) :
    '\n' ∈ options.generatorName.toList ∨
        (∃ s ∈ sections api options, Holds '\n' (Step.textsAll s.code)) ↔
      Holds '\n' (rawTexts api options) := by
  have htypes := Types.holds_emit api options
  have hclient := Client.holds_emit api options
  have hserver := Server.holds_emit api options
  unfold sections rawTexts
  cases options.dialect.isTyped <;> cases options.server <;>
    simp [htypes, hclient, hserver]

/-- Local types and exports are names that the sections hold too. -/
theorem holds_of_types {api : Api} {options : Options} (typed : options.dialect.isTyped)
    {p : Plan} (hp : p ∈ plans api options) {types : TypeSource} (hsource : p.source = some types)
    (h : Holds '\n' (p.sections.flatMap (·.localTypes)) ∨
      Holds '\n' (types.reexports.map (·.name))) : Holds '\n' (rawTexts api options) := by
  unfold plans at hp
  split_ifs at hp
  · obtain rfl := List.mem_singleton.1 hp
    cases hsource
  simp only [separatePlans, typed, if_true, List.mem_append, List.mem_cons, List.not_mem_nil,
    or_false] at hp
  unfold rawTexts
  rw [if_pos typed]
  rcases hp with rfl | rfl | hp
  · cases hsource
  · cases hsource
    rcases h with h | h
    · have hclient := Client.holds_of_localTypes typed (by simpa using h)
      simp [hclient]
    · have htypes : Holds '\n' (Types.rawTexts api) :=
        Types.holds_of_declarations (by simpa [typed] using h)
      simp [htypes]
  · split_ifs at hp with hwanted
    · obtain rfl := List.mem_singleton.1 hp
      cases hsource
      rw [if_pos hwanted]
      rcases h with h | h
      · have hserver := Server.holds_of_localTypes typed (by simpa using h)
        simp [hserver]
      · cases holds_nil h
    · cases hp

theorem exists_plans_holds (api : Api) (options : Options) :
    (∃ p ∈ plans api options, Holds '\n' (p.lineList options)) ↔
      Holds '\n' (rawTexts api options) := by
  have foreign : IsForeign '\n' := ⟨by decide, by decide, by decide⟩
  have hlines : ∀ p : Plan, Holds '\n' (p.lineList options) ↔
      '\n' ∈ options.generatorName.toList ∨
        Holds '\n' (declarationLines options p.sections p.source) ∨
        ∃ s ∈ p.sections, Holds '\n' (Step.textsAll s.code) := by
    intro p
    rw [Plan.lineList, Step.lineList, holds_reverse, Step.holds_runAll foreign,
      or_iff_right holds_nil, holds_artifactSteps]
  have hsections : (∃ p ∈ plans api options, ∃ s ∈ p.sections, Holds '\n' (Step.textsAll s.code)) ↔
      ∃ s ∈ sections api options, Holds '\n' (Step.textsAll s.code) := by
    rw [← flatMap_sections_plans]
    simp only [List.mem_flatMap]
    tauto
  constructor
  · -- A declaration in front of the sections repeats a name that some section holds.
    rintro ⟨p, hp, h⟩
    rcases (hlines p).1 h with h | h | h
    · exact (exists_sections_holds api options).1 (.inl h)
    · have free : ∀ s ∈ p.sections, ∀ i ∈ s.imports, ¬Holds '\n' i.names := by
        intro s hs i hi
        have hs' : s ∈ sections api options := by
          rw [← flatMap_sections_plans]
          exact List.mem_flatMap.2 ⟨p, hp, hs⟩
        exact not_holds_imports hs' hi
      obtain ⟨typed, types, hsource, h⟩ := holds_declarationLines free h
      exact holds_of_types typed hp hsource h
    · exact (exists_sections_holds api options).1 (.inr (hsections.1 ⟨p, hp, h⟩))
  · intro h
    rcases (exists_sections_holds api options).2 h with h | h
    · obtain ⟨p, hp⟩ := List.exists_mem_of_ne_nil _ (plans_ne_nil api options)
      exact ⟨p, hp, (hlines p).2 (.inl h)⟩
    · obtain ⟨p, hp, h⟩ := hsections.2 h
      exact ⟨p, hp, (hlines p).2 (.inr (.inr h))⟩

theorem contents_crlf_iff (api : Api) (options : Options) :
    (artifacts api { options with newline := .crlf }).map (·.content) =
        (artifacts api { options with newline := .lf }).map (fun a => Text.toCrlf a.content) ↔
      ∀ t ∈ rawTexts api options, '\n' ∉ t.toList := by
  have hraw : (∀ t ∈ rawTexts api options, '\n' ∉ t.toList) ↔
      ¬Holds '\n' (rawTexts api options) := by
    simp [Holds]
  rw [hraw, ← exists_plans_holds, artifacts_eq, artifacts_eq, List.map_map, List.map_map,
    List.map_inj_left]
  simp only [Function.comp_apply, Writer.textOf_crlf_iff, not_exists, not_and]

/-- The artifacts of a document with the one line end and with the other have the same names. The
contents with carriage returns are the contents without, each line feed replaced, exactly if none of
the texts that are written as they are holds a line feed. -/
theorem crlf_artifacts_iff {d : Service.Document} {options : Options} {lf : List Artifact}
    (h : generate d { options with newline := .lf } = .ok lf) :
    ∃ api crlf, Api.ofDocument d = .ok api ∧
      generate d { options with newline := .crlf } = .ok crlf ∧
      crlf.map (·.name) = lf.map (·.name) ∧
      (crlf.map (·.content) = lf.map (fun a => Text.toCrlf a.content) ↔
        ∀ t ∈ rawTexts api options, '\n' ∉ t.toList) := by
  obtain ⟨api, hapi, h⟩ := bind_eq_ok_iff.1 h
  obtain rfl := pure_eq_ok_iff.1 h
  have hcrlf : generate d { options with newline := .crlf } =
      .ok (artifacts api { options with newline := .crlf }) :=
    bind_eq_ok_iff.2 ⟨api, hapi, rfl⟩
  refine ⟨api, _, hapi, hcrlf, ?_, contents_crlf_iff api options⟩
  simp only [artifacts_eq, List.map_map]
  rfl

/-! ## A message of two lines -/

/-- A document with a summary of two lines and an obsolete method. -/
def obsoleteDocument (message : String) : Service.Document where
  service := {
    name := "Widgets"
    docs := { summary := some "Widgets\nof all kinds." }
    methods := [{
      name := "getWidget"
      docs := { obsolete := true, obsoleteMessage := some message } }] }
  http := { methods := [{ name := "getWidget", verb := .get, path := "/widget" }] }

def obsoleteApi (message : String) : Api where
  service := (obsoleteDocument message).service
  baseUri := none
  endpoints := [{
    method := {
      name := "getWidget"
      docs := { obsolete := true, obsoleteMessage := some message } }
    verb := .get
    path := [.text "/widget"]
    pathFields := []
    queryFields := []
    requestHeaderFields := []
    requestBody := .none
    responseHeaderFields := []
    responses := [] }]

/-- The summary is cut into lines, and line breaks around the message are trimmed. -/
theorem crlf_artifacts_trimmed :
    ∃ lf crlf, generate (obsoleteDocument "\nUse getItem.\n") { newline := .lf } = .ok lf ∧
      generate (obsoleteDocument "\nUse getItem.\n") { newline := .crlf } = .ok crlf ∧
      crlf.map (·.content) = lf.map (fun a => Text.toCrlf a.content) := by
  have hlf : generate (obsoleteDocument "\nUse getItem.\n") { newline := .lf } =
      .ok (artifacts (obsoleteApi "\nUse getItem.\n") { newline := .lf }) := rfl
  obtain ⟨api, crlf, hapi, hcrlf, -, hiff⟩ := @crlf_artifacts_iff _ {} _ hlf
  obtain rfl : obsoleteApi "\nUse getItem.\n" = api := Except.ok.inj hapi
  exact ⟨_, crlf, hlf, hcrlf, hiff.2 (by decide)⟩

/-- The message is not cut into lines, so its line feed stays as it is. -/
theorem message_mixes_line_ends :
    (obsoleteDocument "Use\ngetItem.").check = .ok () ∧
      ∃ lf crlf, generate (obsoleteDocument "Use\ngetItem.") { newline := .lf } = .ok lf ∧
        generate (obsoleteDocument "Use\ngetItem.") { newline := .crlf } = .ok crlf ∧
        crlf.map (·.content) ≠ lf.map (fun a => Text.toCrlf a.content) := by
  refine ⟨rfl, artifacts (obsoleteApi "Use\ngetItem.") { newline := .lf },
    artifacts (obsoleteApi "Use\ngetItem.") { newline := .crlf }, rfl, rfl, fun h => ?_⟩
  have hraw := (contents_crlf_iff (obsoleteApi "Use\ngetItem.") {}).1 h "Use\ngetItem."
  exact absurd (hraw (by decide)) (by decide)

end Stub

end HttpStubs

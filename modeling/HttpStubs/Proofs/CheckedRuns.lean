import HttpStubs.Proofs.ArtifactLayout
import HttpStubs.Proofs.Patches
import HttpStubs.Proofs.Runs

/-!
# Runs that check

A run that checks leaves the disk as it is. What it reports is decided by the artifacts that are out
of date on the disk (`outOfDate`): their number, and their diffs in order. Each diff is a patch from
what the disk holds to what was generated. No artifact is empty, since each starts with its header,
so no diff is empty either.
-/

namespace HttpStubs

namespace Code.Writer

theorem isPrefix_spaced (above block : List String) : above <+: spaced above block := by
  unfold spaced
  split_ifs
  · exact List.prefix_rfl
  all_goals
    rw [List.append_assoc]
    exact List.prefix_append _ _

theorem isPrefix_foldl_spaced (above : List String) (blocks : List (List String)) :
    above <+: blocks.foldl spaced above := by
  induction blocks generalizing above with
  | nil => exact List.prefix_rfl
  | cons block blocks ih => exact (isPrefix_spaced above block).trans (ih _)

end Code.Writer

namespace Stub

open Code

/-- An artifact starts with the line that says where it comes from. -/
theorem content_of_mem_artifacts {api : Api} {options : Options} {artifact : Artifact}
    (h : artifact ∈ artifacts api options) :
    ∃ rest, artifact.content =
      "// DO NOT EDIT: generated by " ++ options.generatorName ++ options.newline.text ++ rest := by
  have hplans := artifacts_eq api options options.newline
  rw [show ({ options with newline := options.newline } : Options) = options from rfl] at hplans
  rw [hplans] at h
  obtain ⟨p, -, rfl⟩ := List.mem_map.1 h
  obtain ⟨below, hbelow⟩ : headerLines options <+: p.lineList options := by
    rw [lineList_layout]
    exact Writer.isPrefix_foldl_spaced _ _
  rw [headerLines, List.cons_append, List.cons_append] at hbelow
  rw [← hbelow]
  exact ⟨_, Writer.textOf_cons _ _ _⟩

end Stub

namespace Command

open Stub (Artifact)

variable {differ : Diff.LineDiff}

/-- The artifacts of a run are not empty. -/
theorem content_ne_empty {d : Disk} {a : Arguments} {artifacts : List Artifact}
    (h : prepared d a = .ok artifacts) {artifact : Artifact} (hmem : artifact ∈ artifacts) :
    artifact.content ≠ "" := by
  obtain ⟨api, options, rfl⟩ := artifacts_of_prepared h
  obtain ⟨rest, hcontent⟩ := Stub.content_of_mem_artifacts hmem
  simp [hcontent]

/-- The artifacts whose files are missing or differ. -/
def Arguments.outOfDate (a : Arguments) (d : Disk) (artifacts : List Artifact) : List Artifact :=
  artifacts.filter fun artifact => (d.read (a.pathOf artifact)).toOption ≠ some artifact.content

/-- Whether a file can be read or is missing. -/
def Readable (d : Disk) (path : String) : Prop :=
  ∀ fault, d.read path = .error fault → fault = .notFound

instance (d : Disk) (path : String) : Decidable (Readable d path) :=
  match h : d.read path with
  | .ok _ => isTrue fun _ hfault => nomatch h.symm.trans hfault
  | .error fault =>
    if hfault : fault = .notFound then
      isTrue fun _ hother => Except.error.inj (hother.symm.trans h) ▸ hfault
    else isFalse fun hreadable => hfault (hreadable fault h)

theorem outOfDate_eq_nil_iff {a : Arguments} {d : Disk} {artifacts : List Artifact} :
    a.outOfDate d artifacts = [] ↔
      ∀ artifact ∈ artifacts, d.read (a.pathOf artifact) = .ok artifact.content := by
  simp [Arguments.outOfDate, List.filter_eq_nil_iff, toOption_eq_some_iff]

/-- The diff of an artifact against what the disk holds. -/
def Arguments.diffOn (differ : Diff.LineDiff) (a : Arguments) (d : Disk) (artifact : Artifact) :
    String :=
  staleDiff differ artifact (d.read (a.pathOf artifact)).toOption

/-- A report with the artifacts found out of date. -/
def Report.addStale (r : Report) (differ : Diff.LineDiff) (d : Disk) (a : Arguments)
    (artifacts : List Artifact) : Report :=
  { r with
    stdout := r.stdout ++ String.join (artifacts.map (a.diffOn differ d))
    stale := r.stale + artifacts.length }

theorem addStale_nil (r : Report) (d : Disk) (a : Arguments) : r.addStale differ d a [] = r := by
  simp [Report.addStale]

theorem addStale_append (r : Report) (d : Disk) (a : Arguments) (xs ys : List Artifact) :
    r.addStale differ d a (xs ++ ys) = (r.addStale differ d a xs).addStale differ d a ys := by
  simp [Report.addStale, String.append_assoc, Nat.add_assoc]

/-- Checking an artifact leaves the disk as it is. -/
theorem Updates.disk_eq {a : Arguments} {artifact : Artifact} {r r' : Report} {d d' : Disk}
    (h : Updates differ a artifact r d r' d') (hcheck : a.check = true) : d' = d := by
  cases h with
  | current | unreadable | stale => rfl
  | written _ hwrites | unwritten _ _ hwrites => exact absurd hcheck (by simp [hwrites])

/-- Checking an artifact that can be read or is missing reports it if it is out of date. -/
theorem Updates.report_eq {a : Arguments} {artifact : Artifact} {r r' : Report} {d d' : Disk}
    (h : Updates differ a artifact r d r' d') (hcheck : a.check = true)
    (hreadable : Readable d (a.pathOf artifact)) :
    r' = r.addStale differ d a (a.outOfDate d [artifact]) := by
  cases h with
  | current hread =>
    rw [outOfDate_eq_nil_iff.2 (by simpa using hread), addStale_nil]
  | unreadable fault hread hfault => exact absurd (hreadable fault hread) hfault
  | stale text hexisting hchanged =>
    obtain ⟨rfl, -⟩ := existing_eq_ok hexisting
    simp [Arguments.outOfDate, hchanged, Report.addStale, Arguments.diffOn]
  | written _ hwrites | unwritten _ _ hwrites => exact absurd hcheck (by simp [hwrites])

theorem UpdatesAll.disk_eq {a : Arguments} {artifacts : List Artifact} {r r' : Report}
    {d d' : Disk} (h : UpdatesAll differ a artifacts r d r' d') (hcheck : a.check = true) :
    d' = d := by
  induction h with
  | done => rfl
  | stop _ hfirst => exact hfirst.disk_eq hcheck
  | next hfirst _ _ ih => exact ih.trans (hfirst.disk_eq hcheck)

/-- Checking artifacts that can be read or are missing reports those out of date, in order. -/
theorem UpdatesAll.report_eq {a : Arguments} {artifacts : List Artifact} {r r' : Report}
    {d d' : Disk} (h : UpdatesAll differ a artifacts r d r' d') (hcheck : a.check = true)
    (hfailure : r.failure = none) (hreadable : ∀ x ∈ artifacts, Readable d (a.pathOf x)) :
    r' = r.addStale differ d a (a.outOfDate d artifacts) := by
  induction h with
  | done r d => exact (addStale_nil r d a).symm
  | stop _ hfirst hstopped =>
    have hfirst := hfirst.report_eq hcheck (hreadable _ List.mem_cons_self)
    exact absurd hfailure (by simpa [hfirst, Report.addStale] using hstopped)
  | @next artifact artifacts r r' _ d _ _ hfirst hgoes _ ih =>
    obtain rfl := hfirst.disk_eq hcheck
    have hfirst := hfirst.report_eq hcheck (hreadable _ List.mem_cons_self)
    have hrest := ih hgoes fun x hx => hreadable x (List.mem_cons_of_mem _ hx)
    rw [hrest, hfirst, ← addStale_append, Arguments.outOfDate, Arguments.outOfDate,
      ← List.filter_append]
    rfl

/-- The text of a file on the disk, empty if there is none. -/
def Arguments.textOn (a : Arguments) (d : Disk) (artifact : Artifact) : String :=
  (d.read (a.pathOf artifact)).toOption.getD ""

/-- An artifact that is out of date differs from the text on the disk, also if the file is missing:
no artifact is empty. -/
theorem textOn_ne_content {d : Disk} {a : Arguments} {artifacts : List Artifact}
    (hprepared : prepared d a = .ok artifacts) {artifact : Artifact}
    (hmem : artifact ∈ a.outOfDate d artifacts) : a.textOn d artifact ≠ artifact.content := by
  obtain ⟨hmem, hchanged⟩ := List.mem_filter.1 hmem
  unfold Arguments.textOn
  cases hread : (d.read (a.pathOf artifact)).toOption with
  | none => exact (content_ne_empty hprepared hmem).symm
  | some text =>
    intro heq
    exact of_decide_eq_true hchanged (hread.trans (congrArg some heq))

/-- A run that checks leaves the disk as it is. If its artifacts can be read or are missing, it
exits with 0 and prints nothing exactly if each of them is there with its content. Otherwise it
exits with 1 and reports how many are out of date. It prints the diffs of these in order. None of
them is empty, and each is a patch from the text on the disk to the content of the artifact. -/
theorem checked_run_exact {differ : Diff.LineDiff} (hdiffer : differ.Lawful) (d : Disk)
    (a : Arguments) (hcheck : a.check = true) :
    (runOn differ d a).2 = d ∧
      ∀ artifacts, prepared d a = .ok artifacts →
        (∀ artifact ∈ artifacts, Readable d (a.pathOf artifact)) →
        ((runOn differ d a).1.exitCode = 0 ∧ (runOn differ d a).1.stdout = "" ↔
          ∀ artifact ∈ artifacts, d.read (a.pathOf artifact) = .ok artifact.content) ∧
        ((∃ artifact ∈ artifacts, d.read (a.pathOf artifact) ≠ .ok artifact.content) →
          (runOn differ d a).1.exitCode = 1 ∧
            (runOn differ d a).1.stderr = (a.outOfDate d artifacts).length.repr ++
              " generated file(s) out of date\n") ∧
        (runOn differ d a).1.stdout =
          String.join ((a.outOfDate d artifacts).map (a.diffOn differ d)) ∧
        ∀ artifact ∈ a.outOfDate d artifacts, a.diffOn differ d artifact ≠ "" ∧
          Diff.IsPatch (artifact.name ++ " (current)") (artifact.name ++ " (generated)")
            (a.diffOn differ d artifact) (a.textOn d artifact) artifact.content := by
  refine ⟨?_, fun artifacts hprepared hreadable => ?_⟩
  · rw [runOn_eq]
    split
    · rfl
    · exact (updatesAll_updateAll rfl).disk_eq hcheck
  have hreport := (updatesAll_runOn differ hprepared).report_eq hcheck rfl hreadable
  rw [hreport, ← outOfDate_eq_nil_iff]
  refine ⟨?_, ?_, ?_, fun artifact hmem => ?_⟩
  · constructor
    · rintro ⟨hcode, -⟩
      simpa [Report.exitCode, Report.addStale] using hcode
    · intro hnone
      rw [hnone, addStale_nil]
      exact ⟨rfl, rfl⟩
  · rintro ⟨artifact, hmem, hchanged⟩
    have hsome : a.outOfDate d artifacts ≠ [] := fun hnone =>
      hchanged (outOfDate_eq_nil_iff.1 hnone artifact hmem)
    simp [Report.exitCode, Report.stderr, Report.addStale, hsome]
  · simp [Report.addStale]
  · have hpatch := hdiffer.isPatch_unified (artifact.name ++ " (current)")
      (artifact.name ++ " (generated)") (a.textOn d artifact) artifact.content
    exact ⟨fun hempty => textOn_ne_content hprepared hmem (hpatch.eq_empty_iff.1 hempty), hpatch⟩

/-- A disk with a document and options. The types file is an older one, the client file holds the
given text and the server file is missing. -/
def agedDisk (client : String) : Disk where
  entries :=
    [(["api.json"], .file (.text "\x7b\"service\":\x7b\"name\":\"A\"\x7d\x7d")),
      (["stubs.toml"], .file (.text "server = true\n")),
      (["out"], .directory),
      (["out", "aTypes.ts"],
        .file (.text "// DO NOT EDIT: generated by httpgen\n\nexport interface IA \x7b\n\x7d\n")),
      (["out", "aClient.ts"], .file (.text client))]
  working := []

/-- The arguments of a check of the files on such a disk. -/
def mixedCheck : Arguments where
  input := "api.json"
  output := "out"
  config := some "stubs.toml"
  check := true

theorem prepared_agedDisk (client : String) :
    prepared (agedDisk client) mixedCheck = prepared (agedDisk "") mixedCheck := by
  refine prepared_congr rfl fun path hpath => ?_
  cases hpath
  rfl

/-- The types file of the service on such a disk. -/
def freshTypes : Artifact :=
  ⟨"aTypes.ts", "// DO NOT EDIT: generated by httpgen\n/* eslint-disable */\n\n" ++
    "export interface IA \x7b\n\x7d\n"⟩

/-- The older types file and the missing server file are reported; a client file that is up to date
is not. -/
theorem checked_run_exact_mixed :
    Diff.LineDiff.Lawful Diff.script ∧ mixedCheck.check = true ∧
      ∃ client server : Artifact,
        prepared (agedDisk client.content) mixedCheck = .ok [freshTypes, client, server] ∧
        (∀ artifact ∈ [freshTypes, client, server],
          Readable (agedDisk client.content) (mixedCheck.pathOf artifact)) ∧
        (runOn Diff.script (agedDisk client.content) mixedCheck).2 = agedDisk client.content ∧
        (runOn Diff.script (agedDisk client.content) mixedCheck).1.exitCode = 1 ∧
        (runOn Diff.script (agedDisk client.content) mixedCheck).1.stderr =
          "2 generated file(s) out of date\n" ∧
        (runOn Diff.script (agedDisk client.content) mixedCheck).1.stdout =
          "--- aTypes.ts (current)\n+++ aTypes.ts (generated)\n@@ -1,4 +1,5 @@\n" ++
            " // DO NOT EDIT: generated by httpgen\n+/* eslint-disable */\n \n" ++
            " export interface IA \x7b\n \x7d\n" ++ staleDiff Diff.script server none ∧
        Diff.applyPatch (server.name ++ " (current)") (server.name ++ " (generated)")
          (staleDiff Diff.script server none) "" = some server.content := by
  obtain ⟨artifacts, hprepared, hpaths, hfirst⟩ : ∃ artifacts,
      prepared (agedDisk "") mixedCheck = .ok artifacts ∧
        artifacts.map mixedCheck.pathOf = ["out/aTypes.ts", "out/aClient.ts", "out/aServer.ts"] ∧
        artifacts.head? = some freshTypes := by
    apply exists_of_any_toOption
    decide +kernel
  obtain ⟨types, client, server, rfl⟩ :=
    List.length_eq_three.1 (by simpa using congrArg List.length hpaths)
  obtain rfl : types = freshTypes := Option.some.inj hfirst
  obtain ⟨htypes, hclient, hserver⟩ : mixedCheck.pathOf freshTypes = _ ∧
      mixedCheck.pathOf client = _ ∧ mixedCheck.pathOf server = _ := by simpa using hpaths
  rw [← prepared_agedDisk client.content] at hprepared
  -- What the disk holds at the paths of the artifacts.
  have hold : (agedDisk client.content).read (mixedCheck.pathOf freshTypes) =
      .ok "// DO NOT EDIT: generated by httpgen\n\nexport interface IA \x7b\n\x7d\n" := by
    rw [htypes]
    rfl
  have hcurrent : (agedDisk client.content).read (mixedCheck.pathOf client) =
      .ok client.content := by
    rw [hclient]
    rfl
  have hmissing : (agedDisk client.content).read (mixedCheck.pathOf server) =
      .error .notFound := by
    rw [hserver]
    rfl
  have hchanged : (agedDisk client.content).read (mixedCheck.pathOf freshTypes) ≠
      .ok freshTypes.content := by
    rw [hold]
    decide +kernel
  have hstale : mixedCheck.outOfDate (agedDisk client.content) [freshTypes, client, server] =
      [freshTypes, server] := by
    simp [Arguments.outOfDate, toOption_eq_some_iff, hchanged, hcurrent, hmissing]
  have hreadable : ∀ artifact ∈ [freshTypes, client, server],
      Readable (agedDisk client.content) (mixedCheck.pathOf artifact) := by
    simp [Readable, hold, hcurrent, hmissing]
  -- The diffs of the two that are out of date.
  have hhunk : mixedCheck.diffOn Diff.script (agedDisk client.content) freshTypes =
      "--- aTypes.ts (current)\n+++ aTypes.ts (generated)\n@@ -1,4 +1,5 @@\n" ++
        " // DO NOT EDIT: generated by httpgen\n+/* eslint-disable */\n \n" ++
        " export interface IA \x7b\n \x7d\n" := by
    rw [Arguments.diffOn, hold]
    decide +kernel
  have hwhole : mixedCheck.diffOn Diff.script (agedDisk client.content) server =
      staleDiff Diff.script server none := by
    rw [Arguments.diffOn, hmissing]
    rfl
  have hjoin : ∀ first second : String, String.join [first, second] = first ++ second := by simp
  obtain ⟨hdisk, hexact⟩ :=
    checked_run_exact Diff.LineDiff.lawful_script (agedDisk client.content) mixedCheck rfl
  obtain ⟨-, hreport, hstdout, hpatches⟩ := hexact _ hprepared hreadable
  obtain ⟨hcode, hstderr⟩ := hreport ⟨freshTypes, List.mem_cons_self, hchanged⟩
  rw [hstale] at hstderr hstdout hpatches
  rw [show [freshTypes, server].length = 2 from rfl] at hstderr
  have happlies := (hpatches server (by simp)).2.applies
  rw [Arguments.textOn, hwhole, hmissing] at happlies
  rw [List.map_cons, List.map_cons, List.map_nil, hjoin, hhunk, hwhole] at hstdout
  exact ⟨Diff.LineDiff.lawful_script, rfl, client, server, hprepared, hreadable, hdisk, hcode,
    hstderr, hstdout, happlies⟩

end Command

end HttpStubs

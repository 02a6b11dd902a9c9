import HttpStubs.Proofs.CheckedRuns

/-!
# Repeated runs

The artifacts of a run have different places on the disk, since their paths differ at the end of
the last segment only. So a run that succeeds leaves each artifact with its content. If it has
written neither its input nor its options file, a second run is about the same artifacts and has
nothing to do.
-/

namespace HttpStubs.Command

open Stub (Artifact)
open Disk (Reaches)

variable {differ : Diff.LineDiff}

/-! ## The places of the artifacts -/

namespace Path

/-- An ending of a path that makes its last segment the name of an entry. -/
def IsEnding (ending : String) : Prop :=
  2 < ending.toList.length ∧ '/' ∉ ending.toList

instance (ending : String) : Decidable (IsEnding ending) :=
  inferInstanceAs (Decidable (_ ∧ _))

theorem join_append (directory name : String) {ending : String} (h : IsEnding ending) :
    join directory (name ++ ending) = join directory name ++ ending := by
  have hhead : (name ++ ending).toList.head? = some '/' ↔ name.toList.head? = some '/' := by
    rw [String.toList_append, List.head?_append]
    cases hname : name.toList.head? with
    | some c => rfl
    | none =>
      simp only [Option.none_or, reduceCtorEq, iff_false]
      exact fun hslash => h.2 (List.mem_of_head? hslash)
  unfold join
  simp only [hhead]
  split_ifs
  · rfl
  · split <;> simp [String.append_assoc]

theorem splitFrom_of_not_mem (part : List Char) {cs : List Char} (h : '/' ∉ cs) :
    splitFrom part cs = [String.ofList (part.reverse ++ cs)] := by
  induction cs generalizing part with
  | nil => simp [splitFrom]
  | cons c cs ih =>
    rw [List.mem_cons, not_or] at h
    rw [splitFrom, ih _ h.2, List.reverse_cons, List.append_assoc, List.singleton_append]
    exact fun heq => h.1 heq.symm

/-- An ending goes to the last segment. -/
theorem splitFrom_append (part cs : List Char) :
    ∃ segments last, ∀ ending, IsEnding ending →
      splitFrom part (cs ++ ending.toList) = segments ++ [last ++ ending] := by
  induction cs generalizing part with
  | nil =>
    refine ⟨[], String.ofList part.reverse, fun ending hending => ?_⟩
    rw [List.nil_append, splitFrom_of_not_mem _ hending.2, String.ofList_append,
      String.ofList_toList, List.nil_append]
  | cons c cs ih =>
    by_cases hslash : c = '/'
    · obtain ⟨segments, last, hsplit⟩ := ih []
      refine ⟨String.ofList part.reverse :: segments, last, fun ending hending => ?_⟩
      rw [hslash, List.cons_append, splitFrom, hsplit ending hending, List.cons_append]
    · obtain ⟨segments, last, hsplit⟩ := ih (c :: part)
      refine ⟨segments, last, fun ending hending => ?_⟩
      rw [List.cons_append, splitFrom, hsplit ending hending]
      exact hslash

theorem ofText_append (front : String) :
    ∃ absolute segments last, ∀ ending, IsEnding ending →
      ofText (front ++ ending) = ⟨absolute, segments ++ [last ++ ending]⟩ := by
  by_cases hslash : front.toList.head? = some '/'
  · obtain ⟨cs, hfront⟩ : ∃ cs, front.toList = '/' :: cs := List.head?_eq_some_iff.1 hslash
    obtain ⟨segments, last, hsplit⟩ := splitFrom_append [] cs
    refine ⟨true, segments, last, fun ending hending => ?_⟩
    rw [ofText, String.toList_append, hfront, List.cons_append]
    simp only [hsplit ending hending]
  · obtain ⟨segments, last, hsplit⟩ := splitFrom_append [] front.toList
    refine ⟨false, segments, last, fun ending hending => ?_⟩
    rw [ofText, String.toList_append, ← hsplit ending hending]
    split
    next cs htext =>
      have hhead : (front.toList ++ ending.toList).head? = some '/' := by
        rw [htext, List.head?_cons]
      rw [List.head?_append] at hhead
      cases hfirst : front.toList.head? with
      | some c =>
        rw [hfirst] at hhead
        exact absurd (hfirst.trans hhead) hslash
      | none =>
        rw [hfirst] at hhead
        exact absurd (List.mem_of_head? hhead) hending.2
    · rfl

end Path

theorem placeFrom_concat (directory : Place) (segments : List String) {last : String}
    (hidle : Path.isIdle last = false) (hup : last ≠ "..") :
    placeFrom directory (segments ++ [last]) = placeFrom directory segments ++ [last] := by
  induction segments generalizing directory with
  | nil => simp [placeFrom, hidle, hup]
  | cons segment segments ih =>
    rw [List.cons_append, placeFrom, placeFrom]
    split_ifs <;> exact ih _

/-- Paths with different endings have different places. -/
theorem placeOf_append_inj (d : Disk) (front : String) {ending other : String}
    (hending : Path.IsEnding ending) (hother : Path.IsEnding other)
    (h : d.placeOf (front ++ ending) = d.placeOf (front ++ other)) : ending = other := by
  obtain ⟨absolute, segments, last, htext⟩ := Path.ofText_append front
  have hplace : ∀ ending, Path.IsEnding ending → d.placeOf (front ++ ending) =
      placeFrom (if absolute then [] else d.working) segments ++ [last ++ ending] := by
    intro ending hending
    have hlong : 2 < (last ++ ending).toList.length := by
      rw [String.toList_append, List.length_append]
      have hending := hending.1
      omega
    unfold Disk.placeOf Disk.start
    rw [htext ending hending]
    apply placeFrom_concat
    · rw [Path.isIdle, Bool.or_eq_false_iff, beq_eq_false_iff_ne, beq_eq_false_iff_ne]
      exact ⟨fun heq => by simp [heq] at hlong, fun heq => by simp [heq] at hlong⟩
    · exact fun heq => by simp [heq] at hlong
  rw [hplace ending hending, hplace other hother] at h
  simpa using h

/-- The names of artifacts are a stem with different endings. -/
theorem names_artifacts (api : Api) (options : Options) :
    ∃ (stem : String) (endings : List String),
      (Stub.artifacts api options).map (·.name) = endings.map (stem ++ ·) ∧
        endings.Nodup ∧ ∀ ending ∈ endings, Path.IsEnding ending := by
  refine ⟨Stub.moduleName options api.service,
    if options.singleFile then ["." ++ options.dialect.extension]
    else (if options.dialect.isTyped then ["Types.ts"] else []) ++
      ("Client." ++ options.dialect.extension) ::
        if options.server then ["Server." ++ options.dialect.extension] else [], ?_, ?_, ?_⟩
  · unfold Stub.artifacts Stub.separateArtifacts Stub.mergedArtifact
    split_ifs <;> simp [String.append_assoc]
  · cases options.singleFile <;> cases options.dialect <;> cases options.server <;> decide
  · cases options.singleFile <;> cases options.dialect <;> cases options.server <;> decide

/-- No two artifacts of a run have the same place. -/
theorem places_nodup {d : Disk} {a : Arguments} {artifacts : List Artifact}
    (h : prepared d a = .ok artifacts) :
    (artifacts.map fun artifact => d.placeOf (a.pathOf artifact)).Nodup := by
  obtain ⟨api, options, rfl⟩ := artifacts_of_prepared h
  obtain ⟨stem, endings, hnames, hnodup, hendings⟩ := names_artifacts api options
  have hplaces : (Stub.artifacts api options).map (fun artifact => d.placeOf (a.pathOf artifact)) =
      endings.map fun ending => d.placeOf (Path.join a.output stem ++ ending) := by
    calc (Stub.artifacts api options).map (fun artifact => d.placeOf (a.pathOf artifact))
        = ((Stub.artifacts api options).map (·.name)).map
            fun name => d.placeOf (Path.join a.output name) := by
          rw [List.map_map]
          rfl
      _ = endings.map fun ending => d.placeOf (Path.join a.output (stem ++ ending)) := by
          rw [hnames, List.map_map]
          rfl
      _ = _ := by
          apply List.map_congr_left
          intro ending hmem
          rw [Path.join_append _ _ (hendings ending hmem)]
  rw [hplaces]
  apply List.Nodup.map_on _ hnodup
  intro ending hmem other hother heq
  exact placeOf_append_inj d _ (hendings ending hmem) (hendings other hother) heq

/-! ## A run after another -/

theorem Updates.read_eq {a : Arguments} {artifact : Artifact} {r r' : Report} {d d' : Disk}
    (h : Updates differ a artifact r d r' d') (hwrites : a.check = false)
    (hgoes : r'.failure = none) :
    d'.read (a.pathOf artifact) = .ok artifact.content := by
  cases h with
  | current hread => exact hread
  | unreadable | unwritten => cases hgoes
  | stale _ _ _ hcheck => exact absurd hcheck (by simp [hwrites])
  | written _ _ _ hread => exact hread

/-- Artifacts with places of their own are there after a run without a failure. -/
theorem UpdatesAll.read_eq {a : Arguments} {artifacts : List Artifact} {r r' : Report}
    {d d' : Disk} (h : UpdatesAll differ a artifacts r d r' d') (hwrites : a.check = false)
    (hgoes : r'.failure = none)
    (hnodup : (artifacts.map fun artifact => d.placeOf (a.pathOf artifact)).Nodup) :
    ∀ artifact ∈ artifacts, d'.read (a.pathOf artifact) = .ok artifact.content := by
  induction h with
  | done => exact fun _ hmem => nomatch hmem
  | stop _ _ hstopped => exact absurd hgoes hstopped
  | @next first artifacts _ _ _ d d' _ hfirst hnext hrest ih =>
    rw [List.map_cons, List.nodup_cons] at hnodup
    have hplace : d'.placeOf = d.placeOf := funext fun path => hfirst.reaches.placeOf_eq path
    intro artifact hmem
    rcases List.mem_cons.1 hmem with rfl | hmem
    · -- The later updates write other places only.
      apply hrest.reaches.read_eq (hfirst.read_eq hwrites hnext)
      rw [hplace]
      exact hnodup.1
    · exact ih hgoes (by rw [hplace]; exact hnodup.2) artifact hmem

theorem Updates.eq_of_current {a : Arguments} {artifact : Artifact} {r r' : Report} {d d' : Disk}
    (h : Updates differ a artifact r d r' d')
    (hread : d.read (a.pathOf artifact) = .ok artifact.content) : r' = r ∧ d' = d := by
  cases h with
  | current => exact ⟨rfl, rfl⟩
  | unreadable fault hfault => cases hread.symm.trans hfault
  | stale text hexisting hchanged =>
    obtain ⟨rfl, -⟩ := existing_eq_ok hexisting
    exact absurd (toOption_eq_some_iff.2 hread) hchanged
  | written hchanged | unwritten _ hchanged => exact absurd hread hchanged

/-- Where every artifact is up to date, nothing happens. -/
theorem UpdatesAll.eq_of_current {a : Arguments} {artifacts : List Artifact} {r r' : Report}
    {d d' : Disk} (h : UpdatesAll differ a artifacts r d r' d') (hnone : r.failure = none)
    (hread : ∀ artifact ∈ artifacts, d.read (a.pathOf artifact) = .ok artifact.content) :
    r' = r ∧ d' = d := by
  induction h with
  | done => exact ⟨rfl, rfl⟩
  | stop _ hfirst hstopped =>
    obtain ⟨rfl, rfl⟩ := hfirst.eq_of_current (hread _ List.mem_cons_self)
    exact absurd hnone hstopped
  | next hfirst hgoes _ ih =>
    obtain ⟨rfl, rfl⟩ := hfirst.eq_of_current (hread _ List.mem_cons_self)
    exact ih hgoes fun artifact hmem => hread artifact (List.mem_cons_of_mem _ hmem)

theorem runOn_of_current {a : Arguments} {d : Disk} {artifacts : List Artifact}
    (h : prepared d a = .ok artifacts)
    (hread : ∀ artifact ∈ artifacts, d.read (a.pathOf artifact) = .ok artifact.content) :
    runOn differ d a = ({}, d) := by
  obtain ⟨hreport, hdisk⟩ := (updatesAll_runOn differ h).eq_of_current rfl hread
  exact Prod.ext hreport hdisk

/-- A path that does not denote the input or the options file of a run. -/
def Arguments.SparesSources (a : Arguments) (d : Disk) (path : String) : Prop :=
  d.placeOf path ≠ d.placeOf a.input ∧ ∀ config ∈ a.config, d.placeOf path ≠ d.placeOf config

instance (a : Arguments) (d : Disk) (path : String) : Decidable (a.SparesSources d path) :=
  inferInstanceAs (Decidable (_ ∧ _))

/-- A run that spares its sources leaves the same artifacts to be made. -/
theorem UpdatesAll.prepared_eq {a : Arguments} {artifacts : List Artifact} {r r' : Report}
    {d d' : Disk} (h : UpdatesAll differ a artifacts r d r' d')
    (hprepared : prepared d a = .ok artifacts)
    (hspared : ∀ artifact ∈ artifacts, a.SparesSources d (a.pathOf artifact)) :
    prepared d' a = .ok artifacts := by
  have hkept : ∀ path, (∃ text, d.read path = .ok text) →
      (∀ artifact ∈ artifacts, d.placeOf (a.pathOf artifact) ≠ d.placeOf path) →
      d'.read path = d.read path := by
    rintro path ⟨text, htext⟩ hother
    rw [htext]
    apply h.reaches.read_eq htext
    intro hmem
    obtain ⟨artifact, hmem, hplace⟩ := List.mem_map.1 hmem
    exact hother artifact hmem hplace
  obtain ⟨hinput, hconfig⟩ := read_of_prepared hprepared
  rw [← hprepared]
  apply prepared_congr
  · exact hkept a.input hinput fun artifact hmem => (hspared artifact hmem).1
  · intro path hpath
    exact hkept path (hconfig path hpath) fun artifact hmem => (hspared artifact hmem).2 path hpath

theorem prepared_of_exitCode {d : Disk} {a : Arguments} (h : (runOn differ d a).1.exitCode = 0) :
    ∃ artifacts, prepared d a = .ok artifacts := by
  rw [runOn_eq] at h
  cases hprepared : prepared d a with
  | ok artifacts => exact ⟨artifacts, rfl⟩
  | error failure =>
    rw [hprepared] at h
    cases h

/-- The same arguments for a run that checks. -/
def Arguments.checked (a : Arguments) : Arguments :=
  { a with check := true }

/-- After a run that exits with 0 and whose artifacts are not at the place of the input or of the
options file, every artifact is there with its content. The same run again exits with 0 and writes
nothing, and with `check` it exits with 0 and prints nothing. As a disk has no links, paths of
different places denote different files: an artifact is spared by the writing of all others. -/
theorem repeated_run_idle (differ : Diff.LineDiff) (d : Disk) (a : Arguments)
    (hwrites : a.check = false)
    (hexit : (runOn differ d a).1.exitCode = 0)
    (hspared : ∀ artifacts, prepared d a = .ok artifacts →
      ∀ artifact ∈ artifacts, a.SparesSources d (a.pathOf artifact)) :
    (∃ artifacts, prepared d a = .ok artifacts ∧
      ∀ artifact ∈ artifacts,
        (runOn differ d a).2.read (a.pathOf artifact) = .ok artifact.content) ∧
    ((runOn differ (runOn differ d a).2 a).1.exitCode = 0 ∧
      (runOn differ (runOn differ d a).2 a).1.written = [] ∧
      (runOn differ (runOn differ d a).2 a).2 = (runOn differ d a).2) ∧
    (runOn differ (runOn differ d a).2 a.checked).1.exitCode = 0 ∧
      (runOn differ (runOn differ d a).2 a.checked).1.stdout = "" ∧
      (runOn differ (runOn differ d a).2 a.checked).1.stderr = "" := by
  obtain ⟨artifacts, hprepared⟩ := prepared_of_exitCode hexit
  have hspared := hspared artifacts hprepared
  have hupdates := updatesAll_runOn differ hprepared
  have hgoes : (runOn differ d a).1.failure = none := by
    unfold Report.exitCode at hexit
    by_contra hfailure
    simp [Option.isSome_iff_ne_none.2 hfailure] at hexit
  generalize (runOn differ d a).1 = report at hupdates hgoes
  generalize hafter : (runOn differ d a).2 = after at hupdates
  have hread := hupdates.read_eq hwrites hgoes (places_nodup hprepared)
  have hagain : prepared after a = .ok artifacts := hupdates.prepared_eq hprepared hspared
  have hsame : runOn differ after a = ({}, after) := runOn_of_current hagain hread
  have hchecked : runOn differ after a.checked = ({}, after) :=
    runOn_of_current (a := a.checked) hagain hread
  rw [hsame, hchecked]
  exact ⟨⟨artifacts, hprepared, hread⟩, ⟨rfl, rfl, rfl⟩, rfl, rfl, rfl⟩

/-- A disk with a document and options. The types file is up to date, the client file is an older
one and the server file is missing. -/
def mixedDisk : Disk where
  entries :=
    [(["api.json"], .file (.text "\x7b\"service\":\x7b\"name\":\"A\"\x7d\x7d")),
      (["stubs.toml"], .file (.text "server = true\n")),
      (["out"], .directory),
      (["out", "aTypes.ts"], .file (.text ("// DO NOT EDIT: generated by httpgen\n" ++
        "/* eslint-disable */\n\nexport interface IA \x7b\n\x7d\n"))),
      (["out", "aClient.ts"], .file (.text "// DO NOT EDIT: generated by httpgen\n"))]
  working := []

/-- The arguments of a run that writes the files on that disk. -/
def mixedRun : Arguments :=
  { mixedCheck with check := false }

theorem repeated_run_idle_mixed :
    (mixedRun.check = false ∧ (runOn Diff.script mixedDisk mixedRun).1.exitCode = 0 ∧
      (runOn Diff.script mixedDisk mixedRun).1.written.map (·.1) =
        ["out/aClient.ts", "out/aServer.ts"] ∧
      ∀ artifacts, prepared mixedDisk mixedRun = .ok artifacts →
        ∀ artifact ∈ artifacts, mixedRun.SparesSources mixedDisk (mixedRun.pathOf artifact)) ∧
    (runOn Diff.script (runOn Diff.script mixedDisk mixedRun).2 mixedRun).1.exitCode = 0 ∧
      (runOn Diff.script (runOn Diff.script mixedDisk mixedRun).2 mixedRun).1.written = [] ∧
      (runOn Diff.script (runOn Diff.script mixedDisk mixedRun).2 mixedRun.checked).1.exitCode = 0 ∧
      (runOn Diff.script (runOn Diff.script mixedDisk mixedRun).2 mixedRun.checked).1.stdout =
        "" := by
  have hrun : (runOn Diff.script mixedDisk mixedRun).1.exitCode = 0 ∧
      (runOn Diff.script mixedDisk mixedRun).1.written.map (·.1) =
        ["out/aClient.ts", "out/aServer.ts"] := by
    decide +kernel
  have hspared : ∀ artifacts, prepared mixedDisk mixedRun = .ok artifacts →
      ∀ artifact ∈ artifacts, mixedRun.SparesSources mixedDisk (mixedRun.pathOf artifact) := by
    obtain ⟨made, hmade, hall⟩ : ∃ made, prepared mixedDisk mixedRun = .ok made ∧
        ∀ artifact ∈ made, mixedRun.SparesSources mixedDisk (mixedRun.pathOf artifact) := by
      apply exists_of_any_toOption
      decide +kernel
    intro artifacts hprepared
    cases hmade.symm.trans hprepared
    exact hall
  obtain ⟨-, ⟨hcode, hwritten, -⟩, hchecked, hstdout, -⟩ :=
    repeated_run_idle Diff.script mixedDisk mixedRun rfl hrun.1 hspared
  exact ⟨⟨rfl, hrun.1, hrun.2, hspared⟩, hcode, hwritten, hchecked, hstdout⟩

end HttpStubs.Command

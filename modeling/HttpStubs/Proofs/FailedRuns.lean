import HttpStubs.Proofs.RepeatedRuns

/-!
# Failed runs

What a run leaves behind when it fails. If there are no artifacts to write, because the input, the
options or the generation fails, the disk is as before. If the run fails at an artifact, because its
file cannot be read or the disk refuses to have it written, the artifacts before it are there with
their contents, and the files of this one and of the later ones are as before. In no case does a run
change a file that is not an artifact; it may make directories on the way to its artifacts.
-/

namespace HttpStubs.Command

open Stub (Artifact)
open Disk (Reaches)

variable {differ : Diff.LineDiff}

/-! ## Files at places -/

/-- What the file at a place holds, if there is a file. -/
def Disk.file? (d : Disk) (place : Place) : Option Content :=
  match d.get? place with
  | some (.file content) => some content
  | _ => none

theorem Disk.Reaches.file?_eq {written : Place → Prop} {d d' : Disk} (h : Reaches written d d')
    {place : Place} (hplace : ¬written place) : d'.file? place = d.file? place := by
  have hbecomes := h.entry place
  unfold Disk.file?
  generalize d.get? place = before at hbecomes
  generalize d'.get? place = after at hbecomes
  cases hbecomes with
  | same => rfl
  | made => rfl
  | stored _ _ hwritten => exact absurd hwritten hplace

/-! ## The artifact at which a run fails -/

/-- The failures to read or to write the artifact at a path. -/
inductive Failure.IsAt (path : String) : Failure → Prop
  | read (fault : FileFault) : IsAt path (.read path fault)
  | create {parent : Path} (fault : FileFault) : (Path.ofText path).parent? = some parent →
    IsAt path (.create parent.text fault)
  | write (fault : FileFault) : IsAt path (.write path fault)

theorem Failure.IsAt.path_eq {path other : String} {fault : FileFault}
    (h : IsAt path (.write other fault)) : path = other := by
  cases h
  rfl

theorem isAt_of_store {d d' : Disk} {path content : String} {failure : Failure}
    (h : store d path content = (some failure, d')) : failure.IsAt path := by
  unfold store at h
  split at h
  · cases h
  next fault _ =>
    cases h
    exact .write fault

theorem isAt_of_writeFile {d d' : Disk} {path content : String} {failure : Failure}
    (h : (writeFile Disk.access path content).run d = (some failure, d')) : failure.IsAt path := by
  rw [run_writeFile] at h
  split at h
  · exact isAt_of_store h
  next parent hparent =>
    rcases hmade : d.createDirectories parent.text with ⟨fault | _, middle⟩
    all_goals rw [hmade] at h
    · cases h
      exact .create fault hparent
    · exact isAt_of_store h

theorem isAt_of_update {a : Arguments} {artifact : Artifact} {r r' : Report} {d d' : Disk}
    {failure : Failure} (h : (update Disk.access differ a r artifact).run d = (r', d'))
    (hgoes : r.failure = none) (hfails : r'.failure = some failure) :
    failure.IsAt (a.pathOf artifact) := by
  have hread : (Disk.access.read (a.pathOf artifact)).run d = (d.read (a.pathOf artifact), d) := rfl
  have hpath : Path.join a.output artifact.name = a.pathOf artifact := rfl
  have hkept : ∀ report : Report, report.failure = r.failure → report.failure ≠ some failure :=
    fun report heq => by simp [heq, hgoes]
  simp only [update, hpath, run_bind, hread] at h
  split at h
  next fault _ =>
    cases h
    cases hfails
    exact .read fault
  next text _ =>
    split_ifs at h
    · cases h
      exact absurd hfails (hkept _ rfl)
    · cases h
      exact absurd hfails (hkept _ rfl)
    · rw [run_bind] at h
      rcases hwrite : (writeFile Disk.access (a.pathOf artifact) artifact.content).run d with
        ⟨_ | cause, d''⟩
      all_goals
        rw [hwrite] at h
        cases h
      · exact absurd hfails (hkept _ rfl)
      · cases hfails
        exact isAt_of_writeFile hwrite

/-- Updates that end with a failure succeed for the artifacts up to the one that fails. -/
theorem updateAll_split {a : Arguments} {artifacts : List Artifact} {r r' : Report} {d d' : Disk}
    (h : (updateAll Disk.access differ a r artifacts).run d = (r', d')) (hgoes : r.failure = none)
    (hfails : r'.failure ≠ none) :
    ∃ front artifact back middle between, artifacts = front ++ artifact :: back ∧
      UpdatesAll differ a front r d middle between ∧ middle.failure = none ∧
      (update Disk.access differ a middle artifact).run between = (r', d') := by
  induction artifacts generalizing r d with
  | nil =>
    cases h
    exact absurd hgoes hfails
  | cons first artifacts ih =>
    rw [updateAll, run_bind] at h
    rcases hupdate : (update Disk.access differ a r first).run d with ⟨report, disk⟩
    rw [hupdate] at h
    split_ifs at h with hfailure
    · cases h
      exact ⟨[], first, artifacts, r, d, rfl, .done r d, hgoes, hupdate⟩
    · have hnext : report.failure = none := by simpa using hfailure
      obtain ⟨front, artifact, back, middle, between, rfl, hfront, hmiddle, hlast⟩ := ih h hnext
      exact ⟨first :: front, artifact, back, middle, between, rfl,
        .next (updates_update hupdate) hnext hfront, hmiddle, hlast⟩

/-- The artifact that fails is not written. -/
theorem Updates.reaches_of_failure {a : Arguments} {artifact : Artifact} {r r' : Report}
    {d d' : Disk} (h : Updates differ a artifact r d r' d') (hgoes : r.failure = none)
    (hfails : r'.failure ≠ none) : Reaches (fun _ => False) d d' := by
  cases h with
  | current | unreadable | stale => exact .refl d
  | written => exact absurd hgoes hfails
  | unwritten _ _ _ hreaches => exact hreaches

/-! ## What is left behind -/

/-- A run that fails at an artifact has brought the artifacts before it up to date, and leaves the
files of this artifact and of the later ones as they are. -/
theorem failed_run_split {d : Disk} {a : Arguments} {artifacts : List Artifact} {failure : Failure}
    (hwrites : a.check = false) (hprepared : prepared d a = .ok artifacts)
    (hfails : (runOn differ d a).1.failure = some failure) :
    ∃ front artifact back, artifacts = front ++ artifact :: back ∧
      failure.IsAt (a.pathOf artifact) ∧
      (∀ x ∈ front, (runOn differ d a).2.read (a.pathOf x) = .ok x.content) ∧
      ∀ x ∈ artifact :: back,
        (runOn differ d a).2.file? (d.placeOf (a.pathOf x)) = d.file? (d.placeOf (a.pathOf x)) := by
  have hrun : (updateAll Disk.access differ a {} artifacts).run d = runOn differ d a := by
    rw [runOn_eq, hprepared]
  have hnodup := places_nodup hprepared
  have hsome : (runOn differ d a).1.failure ≠ none := by simp [hfails]
  obtain ⟨front, artifact, back, middle, between, rfl, hfront, hmiddle, hlast⟩ :=
    updateAll_split hrun rfl hsome
  have hstop := (updates_update hlast).reaches_of_failure hmiddle hsome
  rw [List.map_append, List.nodup_append] at hnodup
  obtain ⟨hfirst, -, hapart⟩ := hnodup
  refine ⟨front, artifact, back, rfl, isAt_of_update hlast hmiddle hfails, fun x hx => ?_,
    fun x hx => ?_⟩
  · exact hstop.read_eq (hfront.read_eq hwrites hmiddle hfirst x hx) id
  · -- Only the places of the artifacts in front are written.
    have hreaches := hfront.reaches.trans (hstop.mono fun _ => False.elim)
    apply hreaches.file?_eq
    intro hmem
    exact hapart _ hmem _ (List.mem_map_of_mem hx) rfl

/-- No file changes but those of the artifacts. -/
theorem file?_runOn {d : Disk} {a : Arguments} {place : Place}
    (hother : ∀ artifacts, prepared d a = .ok artifacts →
      ∀ x ∈ artifacts, place ≠ d.placeOf (a.pathOf x)) :
    (runOn differ d a).2.file? place = d.file? place := by
  cases hprepared : prepared d a with
  | error failure => rw [runOn_eq, hprepared]
  | ok artifacts =>
    apply (updatesAll_runOn differ hprepared).reaches.file?_eq
    intro hmem
    obtain ⟨x, hx, hplace⟩ := List.mem_map.1 hmem
    exact hother artifacts hprepared x hx hplace.symm

/-- A run that fails before it has artifacts leaves the disk as it is. A run that fails at an
artifact, because its file cannot be read or written or a directory cannot be made, leaves the
artifacts before it with their contents, and the files of this one and of the later ones as they
are. Whether it fails or not, a run changes no file but those of its artifacts. As a disk has no
links, the paths of different artifacts denote different files; and a write that a disk refuses has
not begun, so that it leaves no part of a file. -/
theorem failed_run_prefix (differ : Diff.LineDiff) (d : Disk) (a : Arguments)
    (hwrites : a.check = false) :
    (∀ failure, prepared d a = .error failure →
      runOn differ d a = ({ failure := some failure }, d)) ∧
    (∀ artifacts failure, prepared d a = .ok artifacts →
      (runOn differ d a).1.failure = some failure →
      ∃ front artifact back, artifacts = front ++ artifact :: back ∧
        failure.IsAt (a.pathOf artifact) ∧
        (∀ x ∈ front, (runOn differ d a).2.read (a.pathOf x) = .ok x.content) ∧
        ∀ x ∈ artifact :: back,
          (runOn differ d a).2.file? (d.placeOf (a.pathOf x)) =
            d.file? (d.placeOf (a.pathOf x))) ∧
    ∀ place, (∀ artifacts, prepared d a = .ok artifacts →
        ∀ x ∈ artifacts, place ≠ d.placeOf (a.pathOf x)) →
      (runOn differ d a).2.file? place = d.file? place := by
  refine ⟨fun failure hprepared => ?_, fun artifacts failure hprepared hfails => ?_,
    fun place hother => file?_runOn hother⟩
  · rw [runOn_eq, hprepared]
  · exact failed_run_split hwrites hprepared hfails

/-- A disk with nothing on it. -/
def emptyDisk : Disk where
  entries := []
  working := []

/-- A disk on which the types file is an older one, the client file is missing and a directory
stands in the place of the server file. -/
def blockedDisk : Disk where
  entries :=
    [(["api.json"], .file (.text "\x7b\"service\":\x7b\"name\":\"A\"\x7d\x7d")),
      (["stubs.toml"], .file (.text "server = true\n")),
      (["out"], .directory),
      (["out", "aTypes.ts"], .file (.text "// DO NOT EDIT: generated by httpgen\n")),
      (["out", "aServer.ts"], .directory)]
  working := []

/-- A disk on which the types file and the client file are older ones, and the client file cannot be
written. -/
def guardedDisk : Disk where
  entries :=
    [(["api.json"], .file (.text "\x7b\"service\":\x7b\"name\":\"A\"\x7d\x7d")),
      (["stubs.toml"], .file (.text "server = true\n")),
      (["out"], .directory),
      (["out", "aTypes.ts"], .file (.text "// DO NOT EDIT: generated by httpgen\n")),
      (["out", "aClient.ts"], .file (.text "// DO NOT EDIT: generated by httpgen\n"))]
  working := []
  refusals := [(["out", "aClient.ts"], .other "Permission denied (os error 13)")]

/-- Without an input nothing changes. Where the server file cannot be read, the files before it are
there; where the client file cannot be written, the types file is there and the client file is as
before. -/
theorem failed_run_prefix_blocked :
    mixedRun.check = false ∧
      (prepared emptyDisk mixedRun = .error (.read "api.json" .notFound) ∧
        runOn Diff.script emptyDisk mixedRun =
          ({ failure := some (.read "api.json" .notFound) }, emptyDisk)) ∧
      ((runOn Diff.script blockedDisk mixedRun).1.failure =
          some (.read "out/aServer.ts" .isDirectory) ∧
        ∃ artifacts front artifact back, prepared blockedDisk mixedRun = .ok artifacts ∧
          artifacts.map (·.name) = ["aTypes.ts", "aClient.ts", "aServer.ts"] ∧
          artifacts = front ++ artifact :: back ∧
          (Failure.read "out/aServer.ts" .isDirectory).IsAt (mixedRun.pathOf artifact) ∧
          ∀ x ∈ front,
            (runOn Diff.script blockedDisk mixedRun).2.read (mixedRun.pathOf x) = .ok x.content) ∧
      (runOn Diff.script blockedDisk mixedRun).2.file? ["api.json"] =
        blockedDisk.file? ["api.json"] ∧
      (runOn Diff.script guardedDisk mixedRun).1.failure =
          some (.write "out/aClient.ts" (.other "Permission denied (os error 13)")) ∧
        ∃ types client server, prepared guardedDisk mixedRun = .ok [types, client, server] ∧
          (runOn Diff.script guardedDisk mixedRun).2.read "out/aTypes.ts" = .ok types.content ∧
          (runOn Diff.script guardedDisk mixedRun).2.file? ["out", "aClient.ts"] =
            some (.text "// DO NOT EDIT: generated by httpgen\n") := by
  have hempty : prepared emptyDisk mixedRun = .error (.read "api.json" .notFound) := by
    decide +kernel
  have hfails : (runOn Diff.script blockedDisk mixedRun).1.failure =
      some (.read "out/aServer.ts" .isDirectory) := by
    decide +kernel
  have hrefused : (runOn Diff.script guardedDisk mixedRun).1.failure =
      some (.write "out/aClient.ts" (.other "Permission denied (os error 13)")) := by
    decide +kernel
  obtain ⟨artifacts, hprepared, hnames, hother⟩ : ∃ artifacts,
      prepared blockedDisk mixedRun = .ok artifacts ∧
        artifacts.map (·.name) = ["aTypes.ts", "aClient.ts", "aServer.ts"] ∧
        ∀ x ∈ artifacts, ["api.json"] ≠ blockedDisk.placeOf (mixedRun.pathOf x) := by
    apply exists_of_any_toOption
    decide +kernel
  obtain ⟨guarded, hguarded, hpaths⟩ : ∃ artifacts, prepared guardedDisk mixedRun = .ok artifacts ∧
      artifacts.map mixedRun.pathOf = ["out/aTypes.ts", "out/aClient.ts", "out/aServer.ts"] := by
    apply exists_of_any_toOption
    decide +kernel
  obtain ⟨hstops, -, -⟩ := failed_run_prefix Diff.script emptyDisk mixedRun rfl
  obtain ⟨-, hsplits, hfiles⟩ := failed_run_prefix Diff.script blockedDisk mixedRun rfl
  obtain ⟨front, artifact, back, hsplit, hat, hfront, -⟩ := hsplits artifacts _ hprepared hfails
  refine ⟨rfl, ⟨hempty, hstops _ hempty⟩, ⟨hfails, artifacts, front, artifact, back, hprepared,
    hnames, hsplit, hat, hfront⟩, hfiles _ fun others hothers => ?_, hrefused, ?_⟩
  · cases hprepared.symm.trans hothers
    exact hother
  · obtain ⟨-, hsplits, -⟩ := failed_run_prefix Diff.script guardedDisk mixedRun rfl
    obtain ⟨front, client, back, rfl, hat, hfront, hback⟩ := hsplits guarded _ hguarded hrefused
    have hclient : mixedRun.pathOf client = "out/aClient.ts" := hat.path_eq
    have hplace : guardedDisk.placeOf (mixedRun.pathOf client) = ["out", "aClient.ts"] := by
      rw [hclient]
      decide +kernel
    have hkept := hback client List.mem_cons_self
    rw [hplace] at hkept
    -- The client is the second of the three artifacts, so the types are in front of it.
    rw [List.map_append, List.map_cons, hclient] at hpaths
    rcases front with _ | ⟨types, _ | ⟨_, front⟩⟩
    · simp at hpaths
    · obtain ⟨htypes, hrest⟩ := List.cons.inj hpaths
      obtain ⟨server, rfl, -⟩ := List.map_eq_singleton_iff.1 (List.cons.inj hrest).2
      have hwritten := hfront types List.mem_cons_self
      rw [htypes] at hwritten
      exact ⟨types, client, server, hguarded, hwritten, hkept⟩
    · cases front <;> simp at hpaths

end HttpStubs.Command

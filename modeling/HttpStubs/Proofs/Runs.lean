import Mathlib.Data.List.Basic
import HttpStubs.Command.Run
import HttpStubs.Proofs.DiskChanges

/-!
# Runs on a disk

A run on a disk in terms of what it finds there. Its artifacts depend on the texts of the input and
of the options file alone (`prepared`). For one artifact, `Updates` lists all that can happen: the
file is up to date, or cannot be read, or is reported as stale, or is written, or cannot be written.
A run is a sequence of such updates that stops at the first failure (`UpdatesAll`).
-/

namespace HttpStubs.Command

open Stub (Artifact)
open Disk (Reaches)

variable {differ : Diff.LineDiff}

/-! ## The artifacts of a run -/

/-- The artifacts that the files of a disk ask for. -/
def prepared (d : Disk) (a : Arguments) : Except Failure (List Artifact) := do
  let document ← loadDocument a.input (← (d.read a.input).mapError (.read a.input))
  let options ← match a.config with
    | none => pure {}
    | some path => do loadOptions path (← (d.read path).mapError (.read path))
  generate document (a.override options)

/-- A computation that leaves the disk as it is. -/
def Observes {α : Type} (x : ExceptT Failure (StateM Disk) α) (d : Disk)
    (result : Except Failure α) : Prop :=
  x.run.run d = (result, d)

theorem Observes.bind {α β : Type} {x : ExceptT Failure (StateM Disk) α}
    {f : α → ExceptT Failure (StateM Disk) β} {d : Disk} {result : Except Failure α}
    {g : α → Except Failure β} (hx : Observes x d result) (hf : ∀ a, Observes (f a) d (g a)) :
    Observes (x >>= f) d (result >>= g) := by
  unfold Observes at *
  rw [ExceptT.run_bind, StateT.run_bind, hx]
  cases result with
  | error e => rfl
  | ok a => exact hf a

theorem observes_readFile (d : Disk) (path : String) :
    Observes (readFile Disk.access path) d ((d.read path).mapError (.read path)) := by
  have hread : (liftM (Disk.access.read path) : ExceptT Failure (StateM Disk) _).run.run d =
      (.ok (d.read path), d) := rfl
  unfold Observes readFile
  rw [ExceptT.run_bind, StateT.run_bind, hread]
  cases d.read path <;> rfl

theorem observes_prepare (d : Disk) (a : Arguments) :
    Observes (prepare Disk.access a) d (prepared d a) := by
  unfold prepare prepared
  refine (observes_readFile d a.input).bind fun text => .bind rfl fun document => ?_
  cases a.config with
  | none => rfl
  | some path => exact (observes_readFile d path).bind fun text => .bind rfl fun options => rfl

theorem runOn_eq (differ : Diff.LineDiff) (d : Disk) (a : Arguments) :
    runOn differ d a =
      match prepared d a with
      | .error failure => ({ failure := some failure }, d)
      | .ok artifacts => (updateAll Disk.access differ a {} artifacts).run d := by
  have hprepare : (prepare Disk.access a).run.run d = (prepared d a, d) := observes_prepare d a
  unfold runOn run
  rw [StateT.run_bind, hprepare]
  cases prepared d a <;> rfl

/-- Where input and options read the same, a run is about the same artifacts. -/
theorem prepared_congr {d d' : Disk} {a : Arguments} (hinput : d'.read a.input = d.read a.input)
    (hconfig : ∀ path, a.config = some path → d'.read path = d.read path) :
    prepared d' a = prepared d a := by
  unfold prepared
  rw [hinput]
  cases hpath : a.config with
  | none => rfl
  | some path => simp only [hconfig path hpath]

/-- A run that has artifacts has read its input, and its options file if it has one. -/
theorem read_of_prepared {d : Disk} {a : Arguments} {artifacts : List Artifact}
    (h : prepared d a = .ok artifacts) :
    (∃ text, d.read a.input = .ok text) ∧
      ∀ path, a.config = some path → ∃ text, d.read path = .ok text := by
  unfold prepared at h
  obtain ⟨text, hinput, h⟩ := bind_eq_ok_iff.1 h
  obtain ⟨document, -, h⟩ := bind_eq_ok_iff.1 h
  refine ⟨⟨text, mapError_eq_ok_iff.1 hinput⟩, fun path hpath => ?_⟩
  rw [hpath] at h
  obtain ⟨text, hconfig, -⟩ := bind_eq_ok_iff.1 h
  exact ⟨text, mapError_eq_ok_iff.1 hconfig⟩

/-- The artifacts of a run are those of an API. -/
theorem artifacts_of_prepared {d : Disk} {a : Arguments} {artifacts : List Artifact}
    (h : prepared d a = .ok artifacts) :
    ∃ api options, artifacts = Stub.artifacts api options := by
  have hgenerate : ∀ document options, generate document options = .ok artifacts →
      ∃ api options, artifacts = Stub.artifacts api options := by
    intro document options h
    obtain ⟨api, -, hmade⟩ := bind_eq_ok_iff.1 (mapError_eq_ok_iff.1 h)
    cases hmade
    exact ⟨api, options, rfl⟩
  unfold prepared at h
  obtain ⟨text, -, h⟩ := bind_eq_ok_iff.1 h
  obtain ⟨document, -, h⟩ := bind_eq_ok_iff.1 h
  cases hpath : a.config with
  | none =>
    rw [hpath] at h
    exact hgenerate document _ h
  | some path =>
    rw [hpath] at h
    obtain ⟨text, -, h⟩ := bind_eq_ok_iff.1 h
    obtain ⟨options, -, h⟩ := bind_eq_ok_iff.1 h
    exact hgenerate document _ h

/-! ## One artifact -/

theorem run_bind {α β : Type} (x : StateM Disk α) (f : α → StateM Disk β) (d : Disk) :
    (x >>= f).run d = (f (x.run d).1).run (x.run d).2 :=
  rfl

/-- The path of an artifact. -/
def Arguments.pathOf (a : Arguments) (artifact : Artifact) : String :=
  Path.join a.output artifact.name

/-- What becomes of a report and a disk when an artifact is brought up to date. -/
inductive Updates (differ : Diff.LineDiff) (a : Arguments) (artifact : Artifact) (r : Report)
    (d : Disk) : Report → Disk → Prop
  | current : d.read (a.pathOf artifact) = .ok artifact.content → Updates differ a artifact r d r d
  | unreadable (fault : FileFault) : d.read (a.pathOf artifact) = .error fault →
    fault ≠ .notFound →
    Updates differ a artifact r d { r with failure := some (.read (a.pathOf artifact) fault) } d
  | stale (text : Option String) : existing (d.read (a.pathOf artifact)) = .ok text →
    text ≠ some artifact.content → a.check = true →
    Updates differ a artifact r d
      { r with stdout := r.stdout ++ staleDiff differ artifact text, stale := r.stale + 1 } d
  | written {d' : Disk} : d.read (a.pathOf artifact) ≠ .ok artifact.content → a.check = false →
    Reaches (· = d.placeOf (a.pathOf artifact)) d d' →
    d'.read (a.pathOf artifact) = .ok artifact.content →
    Updates differ a artifact r d
      { r with written := r.written ++ [(a.pathOf artifact, artifact.content)] } d'
  | unwritten (failure : Failure) {d' : Disk} : d.read (a.pathOf artifact) ≠ .ok artifact.content →
    a.check = false → Reaches (fun _ => False) d d' →
    Updates differ a artifact r d { r with failure := some failure } d'

theorem toOption_eq_some_iff {ε α : Type} {x : Except ε α} {a : α} :
    x.toOption = some a ↔ x = .ok a := by
  cases x <;> simp [Except.toOption]

theorem exists_of_any_toOption {ε α : Type} {x : Except ε α} {p : α → Prop} [DecidablePred p]
    (h : x.toOption.any fun a => p a) : ∃ a, x = .ok a ∧ p a := by
  cases x with
  | error e => cases h
  | ok a => exact ⟨a, rfl, of_decide_eq_true h⟩

theorem existing_eq_ok {read : Except FileFault String} {text : Option String}
    (h : existing read = .ok text) :
    text = read.toOption ∧ ∀ fault, read = .error fault → fault = .notFound := by
  unfold existing at h
  split at h
  · cases h
    exact ⟨rfl, nofun⟩
  · cases h
    exact ⟨rfl, fun fault heq => (Except.error.inj heq).symm⟩
  · cases h

theorem existing_eq_error {read : Except FileFault String} {fault : FileFault}
    (h : existing read = .error fault) : read = .error fault ∧ fault ≠ .notFound := by
  unfold existing at h
  split at h
  · cases h
  · cases h
  next hnot =>
    cases h
    exact ⟨rfl, hnot⟩

/-- Writes a text, with a fault in the words of a run. -/
def store (d : Disk) (path content : String) : Option Failure × Disk :=
  match d.write path (.text content) with
  | .ok d => (none, d)
  | .error fault => (some (.write path fault), d)

/-- Writing a text and answering as a run does is `store`. -/
theorem run_write_bind {path content : String}
    {answer : Except FileFault Unit → StateM Disk (Option Failure)}
    (hok : answer (.ok ()) = pure none)
    (herror : ∀ fault, answer (.error fault) = pure (some (.write path fault))) (d : Disk) :
    (Disk.access.write path content >>= answer).run d = store d path content := by
  rw [StateT.run_bind, store]
  cases hwrite : d.write path (.text content) with
  | ok written =>
    have hrun : (Disk.access.write path content).run d = (.ok (), written) := by
      simp [Disk.access, StateT.run, hwrite]
    rw [hrun]
    exact congrArg (StateT.run · written) hok
  | error fault =>
    have hrun : (Disk.access.write path content).run d = (.error fault, d) := by
      simp [Disk.access, StateT.run, hwrite]
    rw [hrun]
    exact congrArg (StateT.run · d) (herror fault)

theorem run_writeFile (d : Disk) (path content : String) :
    (writeFile Disk.access path content).run d =
      match (Path.ofText path).parent? with
      | none => store d path content
      | some parent =>
        match d.createDirectories parent.text with
        | (.ok (), d) => store d path content
        | (.error fault, d) => (some (.create parent.text fault), d) := by
  unfold writeFile
  cases (Path.ofText path).parent? with
  | none =>
    simp only [pure_bind]
    exact run_write_bind rfl (fun fault => rfl) d
  | some parent =>
    have hcreate : (Disk.access.createDirectories parent.text).run d =
        d.createDirectories parent.text := rfl
    simp only [StateT.run_bind, hcreate]
    rcases d.createDirectories parent.text with ⟨fault | _, d'⟩
    · rfl
    · simp only [pure_bind]
      exact run_write_bind rfl (fun fault => rfl) d'

/-- A file that is written can be read; one that is not leaves new directories at most. -/
theorem reaches_writeFile {d d' : Disk} {path content : String} {failure : Option Failure}
    (h : (writeFile Disk.access path content).run d = (failure, d')) :
    (failure = none → Reaches (· = d.placeOf path) d d' ∧ d'.read path = .ok content) ∧
      (failure ≠ none → Reaches (fun _ => False) d d') := by
  have hstore : ∀ middle, Reaches (fun _ => False) d middle →
      store middle path content = (failure, d') →
      (failure = none → Reaches (· = d.placeOf path) d d' ∧ d'.read path = .ok content) ∧
        (failure ≠ none → Reaches (fun _ => False) d d') := by
    intro middle hmiddle h
    unfold store at h
    split at h
    next hwrite =>
      cases h
      obtain ⟨hreaches, hread⟩ := Disk.write_eq_ok hwrite
      rw [hmiddle.placeOf_eq] at hreaches
      exact ⟨fun _ => ⟨(hmiddle.mono fun _ => False.elim).trans hreaches, hread⟩, absurd rfl⟩
    · cases h
      exact ⟨nofun, fun _ => hmiddle⟩
  rw [run_writeFile] at h
  split at h
  · exact hstore d (.refl d) h
  next parent _ =>
    have hcreate : Reaches (fun _ => False) d (d.createDirectories parent.text).2 :=
      Disk.reaches_createAlong d _
    rcases hmade : d.createDirectories parent.text with ⟨fault | _, middle⟩
    all_goals
      rw [hmade] at h hcreate
    · cases h
      exact ⟨nofun, fun _ => hcreate⟩
    · exact hstore middle hcreate h

/-- An update does one of the things listed. -/
theorem updates_update {a : Arguments} {artifact : Artifact} {r r' : Report} {d d' : Disk}
    (h : (update Disk.access differ a r artifact).run d = (r', d')) :
    Updates differ a artifact r d r' d' := by
  have hread : (Disk.access.read (a.pathOf artifact)).run d = (d.read (a.pathOf artifact), d) := rfl
  have hpath : Path.join a.output artifact.name = a.pathOf artifact := rfl
  simp only [update, hpath, run_bind, hread] at h
  split at h
  next fault hexisting =>
    obtain ⟨hfault, hnot⟩ := existing_eq_error hexisting
    cases h
    exact .unreadable fault hfault hnot
  next text hexisting =>
    split_ifs at h with hcurrent hcheck
    · cases h
      exact .current (toOption_eq_some_iff.1 ((existing_eq_ok hexisting).1.symm.trans hcurrent))
    · cases h
      exact .stale text hexisting hcurrent hcheck
    · have hchanged : d.read (a.pathOf artifact) ≠ .ok artifact.content := fun heq =>
        hcurrent ((existing_eq_ok hexisting).1.trans (toOption_eq_some_iff.2 heq))
      have hwrites : a.check = false := by simpa using hcheck
      rw [run_bind] at h
      rcases hwrite : (writeFile Disk.access (a.pathOf artifact) artifact.content).run d with
        ⟨_ | failure, d''⟩
      all_goals
        rw [hwrite] at h
        cases h
        have hreaches := reaches_writeFile hwrite
      · obtain ⟨hplace, hread⟩ := hreaches.1 rfl
        exact .written hchanged hwrites hplace hread
      · exact .unwritten failure hchanged hwrites (hreaches.2 nofun)

/-! ## All artifacts -/

/-- What becomes of a report and a disk when artifacts are brought up to date in order, up to the
first failure. -/
inductive UpdatesAll (differ : Diff.LineDiff) (a : Arguments) :
    List Artifact → Report → Disk → Report → Disk → Prop
  | done (r : Report) (d : Disk) : UpdatesAll differ a [] r d r d
  | stop {artifact : Artifact} {r r' : Report} {d d' : Disk} (artifacts : List Artifact) :
    Updates differ a artifact r d r' d' → r'.failure ≠ none →
    UpdatesAll differ a (artifact :: artifacts) r d r' d'
  | next {artifact : Artifact} {artifacts : List Artifact} {r r' r'' : Report}
    {d d' d'' : Disk} : Updates differ a artifact r d r' d' → r'.failure = none →
    UpdatesAll differ a artifacts r' d' r'' d'' →
    UpdatesAll differ a (artifact :: artifacts) r d r'' d''

theorem updatesAll_updateAll {a : Arguments} {artifacts : List Artifact} {r r' : Report}
    {d d' : Disk} (h : (updateAll Disk.access differ a r artifacts).run d = (r', d')) :
    UpdatesAll differ a artifacts r d r' d' := by
  induction artifacts generalizing r d with
  | nil =>
    cases h
    exact .done _ _
  | cons artifact artifacts ih =>
    rw [updateAll, run_bind] at h
    rcases hupdate : (update Disk.access differ a r artifact).run d with ⟨middle, d''⟩
    rw [hupdate] at h
    have hfirst := updates_update hupdate
    split_ifs at h with hfailure
    · cases h
      exact .stop artifacts hfirst (by simpa [← Option.isSome_iff_ne_none] using hfailure)
    · exact .next hfirst (by simpa using hfailure) (ih h)

/-- A run with artifacts updates them, starting from an empty report. -/
theorem updatesAll_runOn (differ : Diff.LineDiff) {a : Arguments} {d : Disk}
    {artifacts : List Artifact} (h : prepared d a = .ok artifacts) :
    UpdatesAll differ a artifacts {} d (runOn differ d a).1 (runOn differ d a).2 := by
  have hrun : runOn differ d a = (updateAll Disk.access differ a {} artifacts).run d := by
    rw [runOn_eq, h]
  exact updatesAll_updateAll hrun.symm

theorem Updates.reaches {a : Arguments} {artifact : Artifact} {r r' : Report} {d d' : Disk}
    (h : Updates differ a artifact r d r' d') :
    Reaches (· = d.placeOf (a.pathOf artifact)) d d' := by
  cases h with
  | current | unreadable | stale => exact .refl d
  | written _ _ hreaches _ => exact hreaches
  | unwritten _ _ _ hreaches => exact hreaches.mono fun _ => False.elim

/-- Only the places of the artifacts are written. -/
theorem UpdatesAll.reaches {a : Arguments} {artifacts : List Artifact} {r r' : Report}
    {d d' : Disk} (h : UpdatesAll differ a artifacts r d r' d') :
    Reaches (· ∈ artifacts.map fun artifact => d.placeOf (a.pathOf artifact)) d d' := by
  induction h with
  | done r d => exact .refl d
  | stop artifacts hfirst _ =>
    exact hfirst.reaches.mono fun place hplace => by simp [hplace]
  | next hfirst _ _ ih =>
    have hreaches := hfirst.reaches
    simp only [hreaches.placeOf_eq] at ih
    refine .trans (hreaches.mono fun place hplace => ?_) (ih.mono fun place hplace => ?_)
    · simp [hplace]
    · exact List.mem_cons_of_mem _ hplace

end HttpStubs.Command

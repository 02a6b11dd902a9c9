import Mathlib.Data.List.Basic
import HttpStubs.Command.Disk
import HttpStubs.Proofs.Traversal

/-!
# Changes of a disk

What the file operations can do to a disk. The place that a path denotes follows from its segments
alone (`placeOf`), as a disk has no links. A disk reached by making directories and writing files
differs only at places that were free and are directories now, and at the places written
(`Reaches`). So a text that can be read stays readable unless its place is written, and a text that
was written can be read.
-/

namespace HttpStubs.Command

/-! ## Walks -/

/-- A segment that names an entry of a directory. -/
def IsEntryName (segment : String) : Prop :=
  Path.isIdle segment = false ∧ segment ≠ ".." ∧ segment.utf8ByteSize ≤ 255

def Entry.IsFile (entry : Entry) : Prop :=
  ∃ content, entry = .file content

namespace Disk

/-- The walks that lead somewhere. -/
inductive Walks (d : Disk) : Place → List String → Target → Prop
  | here (directory : Place) :
    Walks d directory [] (.entry directory ((d.get? directory).getD .directory))
  | idle {directory : Place} {segment : String} {segments : List String} {target : Target} :
    Path.isIdle segment = true → Walks d directory segments target →
    Walks d directory (segment :: segments) target
  | up {directory : Place} {segments : List String} {target : Target} :
    Walks d directory.dropLast segments target → Walks d directory (".." :: segments) target
  | pass {directory : Place} {segment : String} {segments : List String} {target : Target}
    {entry : Entry} : IsEntryName segment → d.get? (directory ++ [segment]) = some entry →
    ¬entry.IsFile → Walks d (directory ++ [segment]) segments target →
    Walks d directory (segment :: segments) target
  | file {directory : Place} {segment : String} {content : Content} : IsEntryName segment →
    d.get? (directory ++ [segment]) = some (.file content) →
    Walks d directory [segment] (.entry (directory ++ [segment]) (.file content))
  | free {directory : Place} {segment : String} : IsEntryName segment →
    d.get? (directory ++ [segment]) = none → Walks d directory [segment] (.free directory segment)

variable {d d' d'' : Disk} {directory place : Place} {segments : List String} {target : Target}

theorem walk_name (d : Disk) (directory : Place) {segment : String} (h : IsEntryName segment)
    (segments : List String) :
    d.walk directory (segment :: segments) =
      match d.get? (directory ++ [segment]) with
      | some (.file content) =>
        if segments.isEmpty then .ok (.entry (directory ++ [segment]) (.file content))
        else .error .notDirectory
      | some _ => d.walk (directory ++ [segment]) segments
      | none => if segments.isEmpty then .ok (.free directory segment) else .error .notFound := by
  rewrite [walk, if_neg (by simp [h.1]), if_neg h.2.1, if_neg (Nat.not_lt.2 h.2.2)]
  rfl

theorem walks_of_walk (h : d.walk directory segments = .ok target) :
    Walks d directory segments target := by
  induction segments generalizing directory with
  | nil =>
    cases h
    exact .here directory
  | cons segment segments ih =>
    by_cases hidle : Path.isIdle segment = true
    · rw [walk, if_pos hidle] at h
      exact .idle hidle (ih h)
    by_cases hup : segment = ".."
    · rw [walk, if_neg hidle, if_pos hup] at h
      subst hup
      exact .up (ih h)
    by_cases hlong : 255 < segment.utf8ByteSize
    · rw [walk, if_neg hidle, if_neg hup, if_pos hlong] at h
      cases h
    have hname : IsEntryName segment := ⟨by simpa using hidle, hup, Nat.not_lt.1 hlong⟩
    rw [walk_name d directory hname] at h
    split at h
    next content hentry =>
      cases segments with
      | nil =>
        cases h
        exact .file hname hentry
      | cons => cases h
    next entry hnot hentry =>
      have hfile : ¬∃ content, entry = .file content := by
        rintro ⟨content, heq⟩
        exact hnot content heq
      exact .pass hname hentry hfile (ih h)
    next hentry =>
      cases segments with
      | nil =>
        cases h
        exact .free hname hentry
      | cons => cases h

theorem Walks.walk_eq (h : Walks d directory segments target) :
    d.walk directory segments = .ok target := by
  induction h with
  | here => rfl
  | idle hidle _ ih =>
    rw [walk, if_pos hidle]
    exact ih
  | up _ ih => exact ih
  | @pass directory segment segments target entry hname hentry hnot _ ih =>
    rw [walk_name d directory hname, hentry]
    cases entry with
    | file content => exact absurd ⟨content, rfl⟩ hnot
    | _ => exact ih
  | file hname hentry =>
    rw [walk_name d _ hname, hentry]
    rfl
  | free hname hentry =>
    rw [walk_name d _ hname, hentry]
    rfl

/-! ## Places of paths -/

end Disk

/-- The place of some segments, seen from a directory. -/
def placeFrom (directory : Place) : List String → Place
  | [] => directory
  | segment :: segments =>
    if Path.isIdle segment then placeFrom directory segments
    else if segment = ".." then placeFrom directory.dropLast segments
    else placeFrom (directory ++ [segment]) segments

theorem placeFrom_name {directory : Place} {segment : String} (h : IsEntryName segment)
    (segments : List String) :
    placeFrom directory (segment :: segments) = placeFrom (directory ++ [segment]) segments := by
  rw [placeFrom, if_neg (by simp [h.1]), if_neg h.2.1]

/-- The place where a target is, or would be. -/
def Target.place : Target → Place
  | .entry place _ => place
  | .free directory name => directory ++ [name]

namespace Disk

/-- Where the walk of a path starts. -/
def start (d : Disk) (path : String) : Place :=
  if (Path.ofText path).absolute then [] else d.working

/-- The place that a path denotes. -/
def placeOf (d : Disk) (path : String) : Place :=
  placeFrom (d.start path) (Path.ofText path).segments

variable {d d' d'' : Disk} {directory place : Place} {segments : List String} {target : Target}

theorem Walks.place_eq (h : Walks d directory segments target) :
    target.place = placeFrom directory segments := by
  induction h with
  | here => rfl
  | idle hidle _ ih =>
    rw [placeFrom, if_pos hidle]
    exact ih
  | up _ ih => exact ih
  | pass hname _ _ _ ih =>
    rw [placeFrom_name hname]
    exact ih
  | file hname _ | free hname _ =>
    rw [placeFrom_name hname]
    rfl

theorem walks_of_locate {path : String} (h : d.locate path = .ok target) :
    Walks d (d.start path) (Path.ofText path).segments target := by
  unfold locate at h
  split_ifs at h
  exact walks_of_walk h

theorem place_of_locate {path : String} (h : d.locate path = .ok target) :
    target.place = d.placeOf path :=
  (walks_of_locate h).place_eq

/-! ## Entries -/

theorem get?_put_self (d : Disk) (hplace : place ≠ []) (entry : Entry) :
    (d.put place entry).get? place = some entry := by
  simp [get?, put, hplace]

theorem lookup_filter_ne {other : Place} (entries : List (Place × Entry)) (h : other ≠ place) :
    (entries.filter (·.1 != place)).lookup other = entries.lookup other := by
  induction entries with
  | nil => rfl
  | cons e entries ih =>
    rw [List.filter_cons]
    split_ifs with hkeep
    · rw [List.lookup_cons, List.lookup_cons, ih]
    · have hother : (other == e.1) = false := by
        have heq : e.1 = place := by simpa using hkeep
        simpa [heq] using h
      rw [ih, List.lookup_cons, hother]

theorem get?_put_of_ne (d : Disk) {other : Place} (h : other ≠ place) (entry : Entry) :
    (d.put place entry).get? other = d.get? other := by
  have hother : (other == place) = false := by simpa using h
  unfold get? put
  rw [List.lookup_cons, hother, lookup_filter_ne _ h]

theorem Walks.get?_file {content : Content}
    (h : Walks d directory segments (.entry place (.file content))) :
    d.get? place = some (.file content) := by
  generalize htarget : Target.entry place (.file content) = target at h
  induction h with
  | here directory =>
    injection htarget with hplace hentry
    subst hplace
    cases hget : d.get? place with
    | none => simp [hget] at hentry
    | some entry => simp [hentry, hget]
  | idle _ _ ih | up _ ih | pass _ _ _ _ ih => exact ih htarget
  | file _ hentry =>
    injection htarget with hplace heq
    rw [hplace, heq]
    exact hentry
  | free => cases htarget

theorem Walks.get?_free {name : String} (h : Walks d directory segments (.free place name)) :
    d.get? (place ++ [name]) = none := by
  generalize htarget : Target.free place name = target at h
  induction h with
  | here | file => cases htarget
  | idle _ _ ih | up _ ih | pass _ _ _ _ ih => exact ih htarget
  | free _ hentry =>
    injection htarget with hplace hname
    rw [hplace, hname]
    exact hentry

/-! ## Changes -/

/-- What can become of an entry: nothing, a directory at a free place, or, where it is written, a
file. -/
inductive Becomes (written : Prop) : Option Entry → Option Entry → Prop
  | same (entry : Option Entry) : Becomes written entry entry
  | made : Becomes written none (some .directory)
  | stored (before : Option Content) (after : Content) :
    written → Becomes written (before.map .file) (some (.file after))

theorem Becomes.mono {written written' : Prop} (himp : written → written')
    {entry entry' : Option Entry} (h : Becomes written entry entry') :
    Becomes written' entry entry' := by
  cases h with
  | same => exact .same _
  | made => exact .made
  | stored before after hwritten => exact .stored before after (himp hwritten)

theorem Becomes.trans {written : Prop} {entry entry' entry'' : Option Entry}
    (h : Becomes written entry entry') (h' : Becomes written entry' entry'') :
    Becomes written entry entry'' := by
  cases h with
  | same => exact h'
  | made =>
    generalize hmiddle : some Entry.directory = middle at h'
    cases h' with
    | same =>
      subst hmiddle
      exact .made
    | made => cases hmiddle
    | stored before after hwritten => cases before <;> cases hmiddle
  | stored before after hwritten =>
    generalize hmiddle : some (Entry.file after) = middle at h'
    cases h' with
    | same =>
      subst hmiddle
      exact .stored before after hwritten
    | made => cases hmiddle
    | stored _ after' _ => exact .stored before after' hwritten

/-- An entry that is a directory, or that is not written, stays as it is. -/
theorem Becomes.eq_of_kept {written : Prop} {entry : Entry} {entry' : Option Entry}
    (h : Becomes written (some entry) entry') (hkept : entry.IsFile → ¬written) :
    entry' = some entry := by
  generalize hbefore : some entry = before at h
  cases h with
  | same => rfl
  | made => cases hbefore
  | stored content after hwritten =>
    cases content with
    | none => cases hbefore
    | some content => exact absurd hwritten (hkept ⟨content, Option.some.inj hbefore⟩)

/-- The second disk comes from the first by making directories and by writing files at some
places. -/
structure Reaches (written : Place → Prop) (d d' : Disk) : Prop where
  working : d'.working = d.working
  entry : ∀ place, Becomes (written place) (d.get? place) (d'.get? place)

namespace Reaches

variable {written : Place → Prop}

theorem refl (d : Disk) : Reaches written d d :=
  ⟨rfl, fun _ => .same _⟩

theorem trans (h : Reaches written d d') (h' : Reaches written d' d'') : Reaches written d d'' :=
  ⟨h'.working.trans h.working, fun place => (h.entry place).trans (h'.entry place)⟩

theorem mono {written' : Place → Prop} (himp : ∀ place, written place → written' place)
    (h : Reaches written d d') : Reaches written' d d' :=
  ⟨h.working, fun place => (h.entry place).mono (himp place)⟩

theorem start_eq (h : Reaches written d d') (path : String) : d'.start path = d.start path := by
  unfold start
  rw [h.working]

theorem placeOf_eq (h : Reaches written d d') (path : String) :
    d'.placeOf path = d.placeOf path := by
  unfold placeOf
  rw [h.start_eq]

/-- A walk passes directories only, so it still leads to its place; here to a file that is there
now. -/
theorem walks_file (h : Reaches written d d') (hwalk : Walks d directory segments target)
    {content : Content} (hfile : d'.get? target.place = some (.file content)) :
    Walks d' directory segments (.entry target.place (.file content)) := by
  induction hwalk with
  | here directory =>
    have hhere := Walks.here (d := d') directory
    have hentry : d'.get? directory = some (.file content) := hfile
    rw [hentry] at hhere
    exact hhere
  | idle hidle _ ih => exact .idle hidle (ih hfile)
  | up _ ih => exact .up (ih hfile)
  | @pass directory segment segments target entry hname hentry hnot _ ih =>
    have hbecomes := h.entry (directory ++ [segment])
    rw [hentry] at hbecomes
    exact .pass hname (hbecomes.eq_of_kept fun hfile => absurd hfile hnot) hnot (ih hfile)
  | file hname _ => exact .file hname hfile
  | free hname _ => exact .file hname hfile

end Reaches

/-! ## Reading -/

theorem locate_of_walks {path : String} {target' : Target} (h : d.locate path = .ok target)
    (hwalk : Walks d' (d'.start path) (Path.ofText path).segments target') :
    d'.locate path = .ok target' := by
  unfold locate at h ⊢
  split_ifs at h ⊢
  exact hwalk.walk_eq

theorem read_eq_ok_iff {path text : String} :
    d.read path = .ok text ↔ ∃ place, d.locate path = .ok (.entry place (.file (.text text))) := by
  unfold read
  rw [bind_eq_ok_iff]
  constructor
  · rintro ⟨target, hlocate, h⟩
    split at h
    next place text' =>
      cases h
      exact ⟨place, hlocate⟩
    all_goals cases h
  · rintro ⟨place, hlocate⟩
    exact ⟨_, hlocate, rfl⟩

/-- A text that can be read stays readable unless its place is written. -/
theorem Reaches.read_eq {written : Place → Prop} (h : Reaches written d d') {path text : String}
    (hread : d.read path = .ok text) (hplace : ¬written (d.placeOf path)) :
    d'.read path = .ok text := by
  obtain ⟨place, hlocate⟩ := read_eq_ok_iff.1 hread
  have hwalk := walks_of_locate hlocate
  obtain rfl : place = d.placeOf path := place_of_locate hlocate
  have hfile : d'.get? (d.placeOf path) = some (.file (.text text)) := by
    have hbecomes := h.entry (d.placeOf path)
    rw [hwalk.get?_file] at hbecomes
    exact hbecomes.eq_of_kept fun _ => hplace
  have hwalk' := h.walks_file hwalk hfile
  rw [← h.start_eq path] at hwalk'
  exact read_eq_ok_iff.2 ⟨_, locate_of_walks hlocate hwalk'⟩

/-! ## Writing -/

theorem reaches_put (d : Disk) {written : Place → Prop} {entry : Entry}
    (h : Becomes (written place) (d.get? place) (some entry)) (hplace : place ≠ []) :
    Reaches written d (d.put place entry) := by
  refine ⟨rfl, fun other => ?_⟩
  by_cases heq : other = place
  · subst heq
    rw [get?_put_self d hplace]
    exact h
  · rw [get?_put_of_ne d heq]
    exact .same _

theorem tryPut_eq_ok {entry : Entry} (h : d.tryPut place entry = .ok d') :
    d' = d.put place entry := by
  unfold tryPut at h
  split at h
  · cases h
  · cases h
    rfl

theorem add_eq_ok {directory : Place} {name : String} {entry : Entry}
    (h : d.add directory name entry = .ok d') : d' = d.put (directory ++ [name]) entry := by
  unfold add at h
  split at h
  · cases h
  · exact tryPut_eq_ok h

theorem reaches_createDirectory {path : String} (h : d.createDirectory path = .ok d') :
    Reaches (fun _ => False) d d' := by
  unfold createDirectory at h
  obtain ⟨target, hlocate, h⟩ := bind_eq_ok_iff.1 h
  split at h
  · cases h
  next directory name =>
    obtain rfl := add_eq_ok h
    refine reaches_put d ?_ (by simp)
    rw [(walks_of_locate hlocate).get?_free]
    exact .made

theorem reaches_createAlong (d : Disk) (paths : List Path) :
    Reaches (fun _ => False) d (d.createAlong paths).2 := by
  induction paths generalizing d with
  | nil => exact .refl d
  | cons path parents ih =>
    unfold createAlong
    split_ifs
    · exact .refl d
    split
    next hmade => exact reaches_createDirectory hmade
    · have hparents := ih d
      split
      next hfails =>
        rw [hfails] at hparents
        exact hparents
      next middle hmade =>
        rw [hmade] at hparents
        split
        next hlast => exact hparents.trans (reaches_createDirectory hlast)
        · exact hparents
    · exact .refl d

/-- A text that is written can be read, and nothing else is written. -/
theorem write_eq_ok {path text : String} (h : d.write path (.text text) = .ok d') :
    Reaches (· = d.placeOf path) d d' ∧ d'.read path = .ok text := by
  unfold write at h
  obtain ⟨target, hlocate, h⟩ := bind_eq_ok_iff.1 h
  have hwalk := walks_of_locate hlocate
  have hplace := place_of_locate hlocate
  -- Either way the text is put at the place of the path, which is no directory.
  have hput : d' = d.put target.place (.file (.text text)) ∧ target.place ≠ [] ∧
      ∃ before : Option Content, d.get? target.place = before.map .file := by
    split at h
    next place content =>
      have hentry := hwalk.get?_file
      refine ⟨tryPut_eq_ok h, ?_, some content, hentry⟩
      rintro rfl
      cases hentry
    · cases h
    next directory name =>
      exact ⟨add_eq_ok h, by simp [Target.place], none, hwalk.get?_free⟩
  obtain ⟨rfl, hne, before, hbefore⟩ := hput
  have hreaches : Reaches (· = d.placeOf path) d (d.put target.place (.file (.text text))) := by
    refine reaches_put d ?_ hne
    rw [hbefore]
    exact .stored before _ hplace
  refine ⟨hreaches, read_eq_ok_iff.2 ⟨target.place, locate_of_walks hlocate ?_⟩⟩
  exact hreaches.walks_file hwalk (get?_put_self d hne _)

end Disk

end HttpStubs.Command

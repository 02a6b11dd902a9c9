import HttpStubs.Command.Files
import HttpStubs.Command.Path

/-!
# Disks

A tree of directories and files as a value, with the file operations on it. An entry is found by
walking its path from the root or from the working directory: every segment but the last must be a
directory, and `..` goes back to the parent. There are no links, so a file has one place only. A
disk may refuse what is put at some of its places, as a file system does with a file that is
protected; what stands there is then left as it is. Writes that stop half way, as on a full disk,
are not described.
-/

namespace HttpStubs.Command

/-- What a file holds: text, or bytes that are no text. -/
inductive Content where
  | text (text : String)
  | binary
  deriving DecidableEq, Repr

/-- What stands at a place on a disk. -/
inductive Entry where
  | directory
  /-- A directory in which nothing can be made. -/
  | sealedDirectory
  | file (content : Content)
  deriving DecidableEq, Repr

/-- A place on a disk: the names on the way from the root. -/
abbrev Place := List String

/-- A disk with the working directory. The root is always there. No entry is a link: different
places have different entries, so writing one never changes what another holds. -/
structure Disk where
  entries : List (Place × Entry)
  working : Place
  /-- The places at which no file can be written and no entry made, with the reason. -/
  refusals : List (Place × FileFault) := []
  deriving DecidableEq, Repr

/-- Where a path leads: to an entry, or to a free place in a directory. -/
inductive Target where
  | entry (place : Place) (entry : Entry)
  | free (directory : Place) (name : String)
  deriving DecidableEq, Repr

namespace Disk

/-- What stands at a place. -/
def get? (d : Disk) (place : Place) : Option Entry :=
  if place.isEmpty then some .directory else d.entries.lookup place

/-- Replaces what stands at a place, or adds it. -/
def put (d : Disk) (place : Place) (entry : Entry) : Disk :=
  { d with entries := (place, entry) :: d.entries.filter (·.1 != place) }

/-- Takes away what stands at a place and below it. -/
def erase (d : Disk) (place : Place) : Disk :=
  { d with entries := d.entries.filter fun e => !place.isPrefixOf e.1 }

/-- Walks segments from a directory. -/
def walk (d : Disk) (directory : Place) : List String → Except FileFault Target
  | [] => .ok (.entry directory ((d.get? directory).getD .directory))
  | segment :: segments =>
    if Path.isIdle segment then d.walk directory segments
    else if segment = ".." then d.walk directory.dropLast segments
    else if 255 < segment.utf8ByteSize then .error .nameTooLong
    else
      match d.get? (directory ++ [segment]) with
      | some (.file content) =>
        if segments.isEmpty then .ok (.entry (directory ++ [segment]) (.file content))
        else .error .notDirectory
      | some _ => d.walk (directory ++ [segment]) segments
      | none => if segments.isEmpty then .ok (.free directory segment) else .error .notFound

/-- Where a path leads. -/
def locate (d : Disk) (path : String) : Except FileFault Target :=
  if path.toList.contains '\x00' then .error .nullInPath
  else if 4096 ≤ path.utf8ByteSize then .error .nameTooLong
  else
    let p := Path.ofText path
    d.walk (if p.absolute then [] else d.working) p.segments

/-- The text of the file at a path. -/
def read (d : Disk) (path : String) : Except FileFault String := do
  match ← d.locate path with
  | .entry _ (.file (.text text)) => .ok text
  | .entry _ (.file .binary) => .error .notText
  | .entry _ _ => .error .isDirectory
  | .free _ _ => .error .notFound

/-- Whether a path leads to a directory. -/
def isDirectory (d : Disk) (path : String) : Bool :=
  match d.locate path with
  | .ok (.entry _ (.file _)) => false
  | .ok (.entry _ _) => true
  | _ => false

/-- Puts an entry at a place, unless the disk refuses it there. -/
def tryPut (d : Disk) (place : Place) (entry : Entry) : Except FileFault Disk :=
  match d.refusals.lookup place with
  | some fault => .error fault
  | none => .ok (d.put place entry)

/-- Adds an entry at a free place, unless its directory is sealed. -/
def add (d : Disk) (directory : Place) (name : String) (entry : Entry) : Except FileFault Disk :=
  match d.get? directory with
  | some .sealedDirectory => .error .notFound
  | _ => d.tryPut (directory ++ [name]) entry

/-- Makes a directory in a directory that is there. -/
def createDirectory (d : Disk) (path : String) : Except FileFault Disk := do
  match ← d.locate path with
  | .entry _ _ => .error .exists
  | .free directory name => d.add directory name .directory

/-- What comes of a failure to make a directory: none if the path leads to one all the same. -/
def excuse (d : Disk) (path : String) (fault : FileFault) : Except FileFault Unit :=
  if d.isDirectory path then .ok () else .error fault

/-- Makes the first of some paths a directory, where each path's parent comes after it. Where the
parent is missing, it is made first, and stays even if the rest fails. -/
def createAlong (d : Disk) : List Path → Except FileFault Unit × Disk
  | [] => (.error (.other "failed to create whole tree"), d)
  | path :: parents =>
    if path.text = "" then (.ok (), d)
    else
      match d.createDirectory path.text with
      | .ok d => (.ok (), d)
      | .error .notFound =>
        match d.createAlong parents with
        | (.error fault, d) => (.error fault, d)
        | (.ok (), d) =>
          match d.createDirectory path.text with
          | .ok d => (.ok (), d)
          | .error fault => (d.excuse path.text fault, d)
      | .error fault => (d.excuse path.text fault, d)

/-- A path, its parent, and so on for at most `fuel` paths. -/
def ancestry : Nat → Path → List Path
  | 0, _ => []
  | fuel + 1, path => path :: (path.parent?.map (ancestry fuel)).getD []

/-- Makes a directory and its parents, unless they are there. -/
def createDirectories (d : Disk) (path : String) : Except FileFault Unit × Disk :=
  let p := Path.ofText path
  d.createAlong (ancestry (p.segments.length + 1) p)

/-- Makes something the content of the file at a path. -/
def write (d : Disk) (path : String) (content : Content) : Except FileFault Disk := do
  match ← d.locate path with
  | .entry place (.file _) => d.tryPut place (.file content)
  | .entry _ _ => .error .isDirectory
  | .free directory name => d.add directory name (.file content)

/-- The file operations on a disk. A write that fails changes nothing. -/
def access : FileAccess (StateM Disk) where
  read path := fun d => (d.read path, d)
  createDirectories path := fun d => d.createDirectories path
  write path text := fun d =>
    match d.write path (.text text) with
    | .ok d => (.ok (), d)
    | .error fault => (.error fault, d)

end Disk

end HttpStubs.Command

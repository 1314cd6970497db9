import ShaderWeave.Supply.SearchPath

/-!
# A disk in memory

A tree of directories and files below one root directory, which is also the
working directory. Paths are read component by component: every component is
looked up in a directory that exists, so a detour through a missing directory
leads nowhere, and a file has nothing below it, not even itself.

## Main definitions

- `Disk`: directories and files by their components.
- `Disk.write`, `Disk.makeDirectory`: its operations.
- `Disk.follow?`: where a path leads.
- `Disk.fileSystem`: what can be asked about the files of a disk.
-/

namespace ShaderWeave

/-- What a path can lead to. -/
inductive DiskEntry where
  | directory
  | file (bytes : ByteArray)

/-- Directories and files below a root directory, by the components of their
paths. -/
structure Disk where
  /-- The entries below the root, latest first. -/
  entries : List (List String × DiskEntry) := []

namespace Disk

/-- Longest path in bytes that can be looked up. -/
def maxPathSize : Nat := 4095

/-- The components of a path: the parts between its slashes. -/
def components (path : String) : List String :=
  (path.toList.splitOn '/').map String.ofList

/-- What stands at a place. The root is a directory. -/
def entry? (disk : Disk) (place : List String) : Option DiskEntry :=
  if place = [] then some .directory else disk.entries.lookup place

def isDirectory (disk : Disk) (place : List String) : Bool :=
  match disk.entry? place with
  | some .directory => true
  | _ => false

/-! ## Following paths -/

/-- The place that one component leads to from a directory. There is nothing
above the root. -/
def step? (disk : Disk) (place : List String) (component : String) : Option (List String) :=
  if !disk.isDirectory place then none
  else if component = "" ∨ component = "." then some place
  else if component = ".." then
    if place = [] then none else some place.dropLast
  else
    let next := place ++ [component]
    (disk.entry? next).map fun _ => next

/-- The place that a path relative to the root leads to. -/
def follow? (disk : Disk) (path : String) : Option (List String) :=
  if path = "" ∨ path.front? = some '/' ∨ maxPathSize < path.utf8ByteSize then none
  else (components path).foldlM disk.step? []

def bytes? (disk : Disk) (path : String) : Option ByteArray :=
  match (disk.follow? path).bind disk.entry? with
  | some (.file bytes) => some bytes
  | _ => none

/-! ## Writing -/

/-- Put an entry at a place, in place of what stood there. -/
def put (disk : Disk) (place : List String) (e : DiskEntry) : Disk :=
  ⟨(place, e) :: disk.entries.filter (·.1 != place)⟩

/-- Make the directory at a place and all directories above it. -/
def makeDirectories (disk : Disk) (place : List String) : Disk :=
  (List.range (place.length + 1)).foldl (fun d depth =>
    let above := place.take depth
    if d.isDirectory above then d else d.put above .directory) disk

/-- The place that a plain path names, whether or not something stands there. -/
def placeOf (path : String) : List String :=
  (components path).filter fun component => component != "" && component != "."

def makeDirectory (disk : Disk) (path : String) : Disk :=
  disk.makeDirectories (placeOf path)

/-- Write a file, in place of an older one, and make the directories above it. -/
def write (disk : Disk) (path : String) (bytes : ByteArray) : Disk :=
  let place := placeOf path
  (disk.makeDirectories place.dropLast).put place (.file bytes)

/-! ## The file system of a disk -/

/-- The canonical path of a place: its components, a slash between each two. -/
def canonicalPath (place : List String) : String :=
  "/".intercalate place

def fileSystem (disk : Disk) : FileSystem where
  isFile path := (disk.bytes? path).isSome
  canonical path :=
    match disk.follow? path with
    | some place => .ok (canonicalPath place)
    | none => .error "no such file or directory"
  read path :=
    match disk.bytes? path with
    | none => .error "no such file or directory"
    | some bytes =>
      match String.fromUTF8? bytes with
      | some text => .ok text
      | none => .error "stream did not contain valid UTF-8"

end Disk

end ShaderWeave

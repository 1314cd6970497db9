import ShaderWeave.Supply.Basic

/-!
# Files along a search path

An inclusion is looked up in a list of directories. The first directory that
holds a file of the given path wins, and each file is handed out once, by
whichever spellings of its path it is reached.

## Main definitions

- `FileSystem`: the questions that are asked of the files.
- `SearchPath`: the directories and the files handed out so far.
- `SearchPath.candidate`: the path of a file within a directory.
- `SearchPath.request`: look up a path.
-/

namespace ShaderWeave

/-- What can be asked about files at one moment. Errors are given in words. -/
structure FileSystem where
  isFile : String → Bool
  /-- The one path that identifies what the path leads to. -/
  canonical : String → Except String String
  read : String → Except String String

/-- Directories to search, and the files handed out since the last reset. -/
structure SearchPath where
  /-- The directories, first searched first. -/
  directories : List String := []
  /-- Canonical paths of the files handed out, latest first. -/
  handedOut : List String := []
deriving DecidableEq

namespace SearchPath

/-- The path of `path` within a directory. An absolute path stands for itself,
and so does every path within the empty directory name. -/
def candidate (directory path : String) : String :=
  if path.front? = some '/' ∨ directory = "" then path
  else if directory.back? = some '/' then directory ++ path
  else directory ++ "/" ++ path

/-- Search one more directory, after all others. -/
def addDirectory (s : SearchPath) (directory : String) : SearchPath :=
  { s with directories := s.directories ++ [directory] }

def reset (s : SearchPath) : SearchPath :=
  { s with handedOut := [] }

def find? (s : SearchPath) (fs : FileSystem) (path : String) : Option String :=
  (s.directories.map (candidate · path)).find? fs.isFile

/-- Hand out the first file found for a path under the spelling it was found
by, unless the file was handed out before. A file that cannot be read counts as
not handed out. -/
def request (s : SearchPath) (fs : FileSystem) (path : String) : Reply × SearchPath :=
  match s.find? fs path with
  | none => (.failed (.notFound path), s)
  | some found =>
    match fs.canonical found with
    | .error reason => (.failed (.unreadable path reason), s)
    | .ok file =>
      if file ∈ s.handedOut then (.repeated, s)
      else
        match fs.read file with
        | .error reason => (.failed (.unreadable path reason), s)
        | .ok text => (.fresh ⟨found, text⟩, { s with handedOut := file :: s.handedOut })

/-- A search path over an unchanging file system as a supplier. -/
def supplier (fs : FileSystem) : Supplier SearchPath :=
  ⟨fun s path => s.request fs path⟩

end SearchPath

end ShaderWeave

/-
# The scratch root

Every worker generation has a directory of its own below a common root, named after the worker and
its generation. A directory is emptied when it is made and removed when its owner ends. The system may
refuse to remove one; that is not an error by itself, but no other directory can be made in its place.
-/

namespace ProofMiner

/-- A directory with its files, by name and content. -/
structure Directory where
  name : String
  files : List (String × String) := []
  deriving DecidableEq, Repr, Inhabited

/-- The directories below a root. -/
structure Scratch where
  /-- The path of the root. -/
  root : String := ""
  /-- The root is a regular file, so that no directory can be made below it. -/
  blocked : Bool := false
  directories : List Directory := []
  /-- The names of the directories that the system refuses to remove, each with the names of the files
  that it leaves there. -/
  held : List (String × List String) := []
  deriving DecidableEq, Repr, Inhabited

namespace Scratch

/-- The name of the directory of a worker generation. -/
def directoryName (worker : UInt32) (generation : UInt64) : String :=
  s!"worker-{worker.toNat}-gen-{generation.toNat}"

/-- A path below another one. -/
def child (path name : String) : String :=
  if path.isEmpty || path.endsWith "/" then path ++ name else path ++ "/" ++ name

/-- The directory of a name. -/
def find? (s : Scratch) (name : String) : Option Directory :=
  s.directories.find? fun d => d.name == name

/-- Whether there is one. -/
def contains (s : Scratch) (name : String) : Bool := (s.find? name).isSome

/-- The names of the directories, sorted. -/
def names (s : Scratch) : List String := (s.directories.map (·.name)).mergeSort (· ≤ ·)

/-- What is left of a directory when the one of the given name is removed, as far as the system does
that. -/
def remnant? (s : Scratch) (name : String) (d : Directory) : Option Directory :=
  if d.name = name then
    (s.held.lookup name).map fun kept =>
      { d with files := d.files.filter fun f => kept.contains f.1 }
  else some d

/-- Removes a directory with what it holds, as far as the system does that. -/
def remove (s : Scratch) (name : String) : Scratch :=
  { s with directories := s.directories.filterMap (s.remnant? name) }

/-- Makes an empty directory in the place of an older one of the name, if there can be one and the older
one is gone. -/
def create? (s : Scratch) (name : String) : Option Scratch :=
  let s := s.remove name
  if s.blocked || s.contains name then none
  else some { s with directories := s.directories ++ [{ name }] }

/-- Puts a file into a directory, if there is that directory. -/
def write? (s : Scratch) (name file content : String) : Option Scratch :=
  if s.contains name then
    some { s with directories := s.directories.map fun d =>
      if d.name = name then
        { d with files := d.files.filter (fun f => f.1 != file) ++ [(file, content)] }
      else d }
  else none

end Scratch
end ProofMiner

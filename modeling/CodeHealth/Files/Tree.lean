import CodeHealth.Entries
import CodeHealth.Fault
import CodeHealth.Text.Encoding

/-!
# Trees of files

Configuration files and sources are looked up in a tree of files, which holds the bytes of every
file by the names that lead to it. Every name on the way to a file is a directory; other directories
are listed. A path is read from a working directory on: a single point leads nowhere, and two points
lead back where the names before them lead to a directory.
-/

namespace CodeHealth

/-- The names that lead to a file or to a directory. -/
abbrev FilePath := List String

structure FileTree where
  /-- Directories that need not hold any file. -/
  directories : List FilePath := []
  files : Entries FilePath Bytes := []

namespace FileTree

def file? (t : FileTree) (p : FilePath) : Option Bytes :=
  Entries.get? p t.files

def isDirectory (t : FileTree) (p : FilePath) : Bool :=
  (t.directories ++ t.files.keys.map List.dropLast).any p.isPrefixOf

/-- Whether a path leads anywhere. -/
def isPresent (t : FileTree) (p : FilePath) : Bool :=
  (t.file? p).isSome || t.isDirectory p

/-- Adds a directory where there is none yet. -/
def addDirectory (t : FileTree) (p : FilePath) : Except Fault FileTree :=
  if (t.file? p).isSome then .error (.obstructed false)
  else if t.isDirectory p then .ok t
  else .ok { t with directories := t.directories ++ [p] }

def write (t : FileTree) (p : FilePath) (b : Bytes) : Except Fault FileTree :=
  if t.isDirectory p then .error (.obstructed true)
  else .ok { t with files := Entries.put p b t.files }

@[simp] theorem file?_write {t t' : FileTree} {p : FilePath} {b : Bytes}
    (h : t.write p b = .ok t') (q : FilePath) :
    t'.file? q = if p = q then some b else t.file? q := by
  unfold write at h
  split at h
  · contradiction
  · obtain rfl := Except.ok.inj h
    simp [file?, Entries.put, Entries.get?_alter]

@[simp] theorem file?_addDirectory {t t' : FileTree} {p : FilePath}
    (h : t.addDirectory p = .ok t') (q : FilePath) : t'.file? q = t.file? q := by
  unfold addDirectory at h
  split at h
  · contradiction
  · split at h
    · rw [Except.ok.inj h]
    · obtain rfl := Except.ok.inj h
      rfl

/-- Follows the names of a path from a directory on. -/
def follow (t : FileTree) : (start : FilePath) → List String → Option FilePath
  | here, [] => some here
  | here, name :: rest =>
    if name = "" ∨ name = "." then if t.isDirectory here then follow t here rest else none
    else if name = ".." then if t.isDirectory here then follow t here.dropLast rest else none
    else follow t (here ++ [name]) rest

/-- The names in a written path, and the directory that they start from: a path that begins with a
slash starts from the root, any other one from the working directory. -/
def start (here : FilePath) (path : String) : FilePath × List String :=
  let names := (path.toList.splitOn '/').map String.ofList
  (if names.head? = some "" then [] else here, names)

/-- Where a written path leads from a working directory on, if it leads anywhere. -/
def resolve? (t : FileTree) (here : FilePath) (path : String) : Option FilePath := do
  guard (!path.isEmpty)
  let (first, names) := start here path
  let p ← t.follow first names
  guard (t.isPresent p)
  return p

end FileTree

end CodeHealth

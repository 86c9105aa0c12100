import CodeHealth.Config.Basic
import CodeHealth.Files.Tree
import CodeHealth.Json.Parser
import CodeHealth.Json.Printer

/-!
# Configuration files

The defaults are overlaid by up to four files: one for all projects, the shared and the local one of
the project, and one that is named explicitly. A file that is not there, that cannot be read or that
is no JSON object is skipped, and so is one whose sections are of the wrong kind. A value that
should have members and has none is a fault nevertheless, and so are enabled categories that have no
elements.

A configuration is saved to the shared or to the local file of a project, as indented JSON text.
-/

namespace CodeHealth

structure ConfigPlaces where
  shared : FilePath
  project : FilePath
  explicit : Option FilePath := none
deriving Repr, DecidableEq

namespace ConfigPlaces

def fileName (isLocal : Bool) : String :=
  if isLocal then "debt.config.local.json" else "debt.config.json"

def directory (project : FilePath) : FilePath :=
  project ++ [".debt"]

def projectFile (project : FilePath) (isLocal : Bool) : FilePath :=
  directory project ++ [fileName isLocal]

/-- All files in the order in which they are laid on top of each other. -/
def candidates (p : ConfigPlaces) : List FilePath :=
  [p.shared ++ [fileName false], projectFile p.project false, projectFile p.project true]
    ++ p.explicit.toList

end ConfigPlaces

namespace Config

/-- Whether a fault in a file lets the file be skipped. -/
def isSkipped (f : Fault) : Bool :=
  f.typeName = "TypeError" || f.typeName = "ValueError"

def fileValue? (b : Bytes) : Option Value := do
  Value.ofJson? (Text.unifyNewlines (← b.utf8?))

/-- The configuration in a file, unless the file is to be skipped. -/
def ofBytes (b : Bytes) : Except Fault (Option Config) :=
  match fileValue? b with
  | some (.object members) =>
    match ofValue (.object members) with
    | .ok c => .ok (some c)
    | .error f => if isSkipped f then .ok none else .error f
  | _ => .ok none

/-- A configuration with a file on top of it. -/
def mergeFile (t : FileTree) (c : Config) (p : FilePath) : Except Fault Config := do
  match t.file? p with
  | none => return c
  | some b =>
    match ← ofBytes b with
    | none => return c
    | some above => c.merge above

/-- The configuration that the files of some places make up. -/
def load (t : FileTree) (places : ConfigPlaces) : Except Fault Config :=
  places.candidates.foldlM (mergeFile t) {}

def toBytes (c : Config) : Bytes :=
  Bytes.ofText (c.toValue.toJson .indented).toList

def save (c : Config) (t : FileTree) (project : FilePath) (isLocal : Bool) :
    Except Fault FileTree := do
  let t ← t.addDirectory (ConfigPlaces.directory project)
  t.write (ConfigPlaces.projectFile project isLocal) c.toBytes

end Config

end CodeHealth

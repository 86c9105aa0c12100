import CodeHealth.Entries
import CodeHealth.Files.Tree
import CodeHealth.Rule.Bloaters
import CodeHealth.Rule.ChangePreventers
import CodeHealth.Rule.Couplers
import CodeHealth.Rule.Dispensables
import CodeHealth.Rule.OrientationAbusers
import CodeHealth.Text.Quoted

/-!
# The catalog of rules

The rules that come with the program are kept in a catalog, each as a module in the directory of its
category. *Discovery* looks at a tree of files and selects from the catalog the rules whose modules
are present there. It reads the directories in the order of the categories, and in a directory the
modules in the order of their names. Files in other directories, files that are not modules and
modules whose names begin with an underscore mean nothing; a module that the catalog does not have
in that directory is reported, and the search goes on.

What was found is kept until the next search, the rules in canonical order, whatever the files are
called.
-/

namespace CodeHealth

structure CatalogEntry where
  directory : String
  stem : String
  rule : Rule

namespace Catalog

/-- The directories, in the order of the categories. -/
def directories : List String :=
  ["bloaters", "oo_abusers", "change_preventers", "dispensables", "couplers"]

/-- All rules with their modules. -/
def entries : List CatalogEntry :=
  [⟨"bloaters", "long_method", .longMethod⟩,
   ⟨"bloaters", "long_parameter_list", .longParameterList⟩,
   ⟨"bloaters", "large_class", .largeClass⟩,
   ⟨"oo_abusers", "switch_statements", .switchStatements⟩,
   ⟨"oo_abusers", "temporary_field", .temporaryField⟩,
   ⟨"change_preventers", "parallel_inheritance", .parallelInheritance⟩,
   ⟨"dispensables", "comments", .comments⟩,
   ⟨"dispensables", "duplicate_code", .duplicateCode⟩,
   ⟨"couplers", "feature_envy", .featureEnvy⟩]

def rules : List Rule :=
  (entries.map CatalogEntry.rule).mergeSort Rule.noLater

def rule? (id : String) : Option Rule :=
  rules.find? (·.id = id)

def ofModule? (directory stem : String) : Option Rule :=
  (entries.find? fun e => e.directory = directory ∧ e.stem = stem).map CatalogEntry.rule

def package : String := "debt_analyzer.rules"

/-- The name of a module in a directory, part by part and in quotes. -/
def moduleName (directory : String) (parts : List String) : String :=
  String.ofList (Text.quoted (".".intercalate (package :: directory :: parts)).toList)

/-- Why there is no module of a name that the catalog does not have. If the name consists of several
parts, the first one is to blame: either there is no such module, or it has no parts. -/
def missingMessage (directory stem : String) : String :=
  match (stem.toList.splitOn '.').map String.ofList with
  | first :: second :: _ =>
    if (ofModule? directory first).isSome then
      "No module named " ++ moduleName directory [first, second] ++ "; "
        ++ moduleName directory [first] ++ " is not a package"
    else "No module named " ++ moduleName directory [first]
  | parts => "No module named " ++ moduleName directory parts

end Catalog

structure ModuleFile where
  directory : String
  fileName : String
deriving DecidableEq

namespace ModuleFile

def isModule (f : ModuleFile) : Bool :=
  ".py".toList.isSuffixOf f.fileName.toList && f.fileName.toList.head? ≠ some '_'

/-- The name of the module, without the ending. A name that is nothing but the ending is kept. -/
def stem (f : ModuleFile) : String :=
  let name := f.fileName.toList
  let stem := name.take (name.length - ".py".length)
  if stem.isEmpty then f.fileName else String.ofList stem

def rule? (f : ModuleFile) : Option Rule :=
  Catalog.ofModule? f.directory f.stem

/-- The path of the file below a directory, whose path may be the current one or end in a slash. -/
def path (f : ModuleFile) (base : String) : String :=
  let inside := f.directory ++ "/" ++ f.fileName
  if base = "." then inside
  else if base.toList.getLast? = some '/' then base ++ inside
  else base ++ "/" ++ inside

/-- The report of a module that cannot be read. -/
def complaint (f : ModuleFile) (base : String) : String :=
  "Error loading rules from " ++ f.path base ++ ": " ++ Catalog.missingMessage f.directory f.stem

end ModuleFile

/-- A directory to look at, and what the last search in it has found. -/
structure Discovery where
  /-- The path of the directory, as reports show it: without a slash behind a name. -/
  base : String
  /-- The rules by their identifiers. -/
  found : Entries String Rule := []
  /-- The reports, in the order in which the modules were read. -/
  errors : List String := []

namespace Discovery

/-- The name that stands directly inside a directory on the way to a file, if that way leads through
it. -/
def nameIn? (directory : String) : FilePath → Option String
  | d :: name :: _ => if d = directory then some name else none
  | _ => none

/-- The names directly inside a directory, in order. A name comes once. -/
def namesIn (directory : String) (files : List FilePath) : List String :=
  (files.filterMap (nameIn? directory)).eraseDups.mergeSort fun a b => !(b < a)

/-- The modules among the files, directory by directory. -/
def modules (files : List FilePath) : List ModuleFile :=
  Catalog.directories.flatMap fun directory =>
    ((namesIn directory files).map (ModuleFile.mk directory)).filter ModuleFile.isModule

def clear (d : Discovery) : Discovery :=
  { d with found := [], errors := [] }

/-- Reads a module. Its rule is added to those that came up before, or the module is reported. -/
def read (s : Discovery × List Rule) (f : ModuleFile) : Discovery × List Rule :=
  match f.rule? with
  | some rule => (s.1, s.2 ++ [rule])
  | none => ({ s.1 with errors := s.1.errors ++ [f.complaint s.1.base] }, s.2)

/-- Keeps a rule by its identifier. -/
def keep (d : Discovery) (r : Rule) : Discovery :=
  { d with found := d.found.put r.id r }

def discover (d : Discovery) (files : List FilePath) : Discovery :=
  let (d, rules) := (modules files).foldl read (d.clear, [])
  (rules.mergeSort Rule.noLater).foldl keep d

def rules (d : Discovery) : List Rule :=
  d.found.values

/-- What a first search finds among the files below a directory. -/
def ofFiles (base : String) (files : List FilePath) : Discovery :=
  discover { base } files

end Discovery

end CodeHealth

import CodeHealth.CommandLine.Run

/-!
# The program

The program reads the files that a command line may need, runs the command, writes the files that it
has changed, and shows what it leaves.
-/

namespace CodeHealth.Program

/-- The names that lead to a path of the operating system. -/
def names (path : String) : FilePath :=
  ((path.toList.splitOn '/').map String.ofList).filter (!·.isEmpty)

/-- The path of the operating system that names lead to. -/
def written (p : FilePath) : String :=
  "/" ++ "/".intercalate p

/-- The paths that a command names. -/
def commandPaths (name : CommandName) (words : List String) : List String :=
  match Command.read? name words with
  | some (configFile, c) =>
    let own :=
      match c with
      | .analyze source _ _ => [source]
      | .rules _ source => source.toList
      | .config project _ _ => project.toList
      | .request => []
    own ++ configFile.toList
  | none => []

def namedPaths (words : List String) : List String :=
  match Invocation.read? words with
  | some (.command log name words) => commandPaths name words ++ log.file.toList
  | _ => []

/-- Adds what stands at a path, if anything does. -/
def addPath (t : FileTree) (path : String) : IO FileTree := do
  let place := (← IO.currentDir) / path
  if ← place.isDir then
    return { t with directories := names place.toString :: t.directories }
  else if ← place.pathExists then
    let b ← IO.FS.readBinFile place
    return { t with files := Entries.put (names place.toString) b.toList t.files }
  else return t

/-- The files that a command line may need. -/
def collect (here shared : FilePath) (words : List String) : IO FileTree := do
  let named := namedPaths words
  let projects := here :: named.map fun path => names (written here ++ "/" ++ path)
  let configFiles := projects.flatMap fun project =>
    ({ shared, project } : ConfigPlaces).candidates.map written
  (written here :: named ++ configFiles).foldlM addPath {}

def store (before after : FileTree) : IO Unit := do
  for (p, b) in after.files do
    if before.file? p ≠ some b then
      IO.FS.createDirAll (written p.dropLast)
      IO.FS.writeBinFile (written p) ⟨b.toArray⟩

def readsInput (words : List String) : Bool :=
  match Invocation.read? words with
  | some (.command _ .request _) => true
  | _ => Command.standardInput ∈ namedPaths words

/-- Runs a command line. -/
def run (words : List String) : IO UInt32 := do
  let here := names (← IO.currentDir).toString
  let shared := names ((← IO.getEnv "HOME").getD "") ++ [".debt-analyzer"]
  let tree ← collect here shared words
  let input ← if readsInput words then (← IO.getStdin).readBinToEnd else pure .empty
  let place : CommandPlace := { tree, here, shared, input := input.toList }
  let result := place.run words
  store tree result.tree
  IO.print result.output
  IO.eprint result.terminal
  if let some f := result.failure then
    IO.eprintln s!"{f.typeName}: {f.message}"
  return UInt32.ofNat result.status

end CodeHealth.Program

/-- Runs the command line that the program is started with. -/
def main (words : List String) : IO UInt32 :=
  CodeHealth.Program.run words

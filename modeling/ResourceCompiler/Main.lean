import ResourceCompiler.CommandLine

/-!
The program. It takes from the disk what a compilation may look at, compiles, and puts back what
the compilation changed.
-/

namespace ResourceCompiler.Program

/-- Where a place is on the real disk. -/
def realPath (place : List String) :=
  (fun here => here / ("/" ++ String.intercalate "/" place)) <$> IO.currentDir

/-- The places that a walk along some parts of a path comes by. -/
def visited (place : List String) : List String → List (List String)
  | [] => [place]
  | part :: rest =>
    let next :=
      if part == "" || part == "." then place
      else if part == ".." then place.dropLast
      else place ++ [part]
    place :: visited next rest

/-- Takes what stands at a place, unless it was taken before or cannot be read. -/
def take (disk : FileSystem) (place : List String) : IO FileSystem := do
  if (disk.entry? place).isSome then return disk
  let path ← realPath place
  if ← path.isDir then return disk.put place .directory
  try
    return disk.put place (.file (← IO.FS.readBinFile path))
  catch _ => return disk

def takePath (disk : FileSystem) (p : Path) : IO FileSystem :=
  (visited (disk.start p) p.parts).foldlM take disk

/-- A refusal that a compilation reports. -/
def refusal? : IO.Error → Option DiskFailure
  | .noFileOrDirectory .. => some .notFound
  | .permissionDenied .. => some .permissionDenied
  | _ => none

/-- Takes the source files of a directory and of those below it, as far as these can be read. -/
partial def takeTree (disk : FileSystem) (directory : Path) (place : List String) :
    IO (FileSystem × List WalkFailure) := do
  match ← (← realPath place).readDir.toBaseIO with
  | .error e =>
    match refusal? e with
    | some failure => return (disk, [⟨some directory, failure⟩])
    | none => throw e
  | .ok entries =>
    entries.foldlM (fun (disk, failures) entry => do
      let inside := place ++ [entry.fileName]
      if (← entry.path.symlinkMetadata).type == .dir then
        let (disk, more) ← takeTree (← take disk inside) (directory.join ⟨entry.fileName⟩) inside
        return (disk, failures ++ more)
      else if SourceFile.isSource ⟨entry.fileName⟩ then return (← take disk inside, failures)
      else return (disk, failures)) (disk, [])

/-- The files that the strings of a source file may mean. -/
def mentioned (w : Surroundings) (p : Path) : List Path :=
  match SourceFile.read w.disk p >>= SourceFile.tokens with
  | .ok tokens => (tokens.filter (·.kind == .string)).flatMap w.candidates
  | .error _ => []

/-- Takes some files, those that they mention, those that these mention, and so on. -/
partial def takeReachable (directories : List Path) (disk : FileSystem)
    (seen : List (List String)) : List Path → IO FileSystem
  | [] => return disk
  | p :: rest => do
    let disk ← takePath disk p
    match disk.locate p with
    | .error _ => takeReachable directories disk seen rest
    | .ok place =>
      if seen.contains place then takeReachable directories disk seen rest
      else takeReachable directories disk (place :: seen) (mentioned ⟨disk, directories⟩ p ++ rest)

/-- The walk over what was taken, which fails where something could not be. -/
def walk (failures : List WalkFailure) : DirectoryWalk := fun disk directory =>
  failures.map .error ++ DirectoryWalk.overEntries disk directory

/-- What a request may look at, and where that could not be read. -/
def snapshot (workingDirectory : List String) :
    Request → IO (FileSystem × List WalkFailure)
  | .compile input output options => do
    let disk ← [input, output].foldlM takePath (.fresh workingDirectory)
    let (disk, failures) ← match disk.isDirectory input, disk.locate input with
      | true, .ok place => takeTree disk input place
      | _, _ => pure (disk, [])
    let sources := (SourceFile.paths (walk failures) disk input).toOption.getD []
    return (← takeReachable options.includeDirectories disk [] sources, failures)
  | _ => return (.fresh workingDirectory, [])

/-- Changes the real disk as a value of it has changed. -/
def putBack (before after : FileSystem) : IO Unit := do
  let changed := after.entries.filter fun (place, entry) =>
    !(before.entry? place).any entry.same
  for (place, entry) in changed.mergeSort (fun a b => a.1.length ≤ b.1.length) do
    let path ← realPath place
    match entry with
    | .directory => IO.FS.createDir path
    | .file contents => IO.FS.writeBinFile path contents

def run (arguments : List String) : IO UInt32 := do
  let here ← IO.currentDir
  let workingDirectory := (Path.mk here.toString).parts.filter (· ≠ "")
  let (disk, failures) ← match CommandLine.read arguments with
    | .ok request => snapshot workingDirectory request
    | .error _ => pure (.fresh workingDirectory, [])
  let outcome := CommandLine.run (walk failures) disk arguments
  putBack disk outcome.disk
  IO.print outcome.output
  IO.eprint outcome.errorOutput
  return outcome.exitCode

end ResourceCompiler.Program

def main (arguments : List String) : IO UInt32 :=
  ResourceCompiler.Program.run arguments

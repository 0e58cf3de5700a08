import ResourceCompiler.Disk.FileSystem
import ResourceCompiler.Source.Lexer

/-!
Finding and reading the files that a source imports.
-/

namespace ResourceCompiler

/-- What a compilation sees of the disk: its files, and the directories in which imports are
looked for after the directory of the importing file. -/
structure Surroundings where
  disk : FileSystem
  includeDirectories : List Path

namespace Surroundings

/-- The files that a path in the source may mean. An absolute path means one file. -/
def candidates (w : Surroundings) (requested : Token) : List Path :=
  let written : Path := ⟨requested.text⟩
  if written.isAbsolute then [written]
  else ((Path.mk requested.location.file).directory :: w.includeDirectories).map (·.join written)

/-- The file that an import names: the first candidate that exists. -/
def findImport (w : Surroundings) (requested : Token) : Except CompileError Path :=
  match (w.candidates requested).find? w.disk.isFile with
  | some path => .ok path
  | none => .error (.meaning requested.location (.importNotFound requested.text))

/-- The tokens of an imported file. -/
def readImport (w : Surroundings) (requested : Token) : Except CompileError (List Token) :=
  if requested.kind ≠ .string then
    .error (.grammar requested.location (.importOfNonString requested.text))
  else do
    let path ← w.findImport requested
    match w.disk.readText path with
    | .error failure => throw (.disk path failure)
    | .ok source => Lexer.tokenize source path.text

/-- The tokens of all imported files, in the order in which they are named. -/
def readImports (w : Surroundings) (requested : List Token) : Except CompileError (List Token) := do
  return (← requested.mapM w.readImport).flatten

end Surroundings

end ResourceCompiler

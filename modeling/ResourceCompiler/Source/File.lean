import ResourceCompiler.Disk.Walk
import ResourceCompiler.Source.Lexer

/-!
Source files. The input of a compilation is one file or a directory, which stands for every source
file below it, in the order of their paths.
-/

namespace ResourceCompiler

structure SourceFile where
  path : Path
  text : String
deriving DecidableEq, Repr

namespace SourceFile

/-- The extension that tells a source file from the other files of a directory. -/
def sourceExtension : String := "kdl"

def read (disk : FileSystem) (path : Path) : Except CompileError SourceFile :=
  match disk.readText path with
  | .ok text => .ok ⟨path, text⟩
  | .error failure => .error (.disk path failure)

def isSource (path : Path) : Bool := path.extension? == some sourceExtension

/-- What a walk came by. A failure that names no path is one of the whole input. -/
def visited (input : Path) : Except WalkFailure Path → Except CompileError Path
  | .ok path => .ok path
  | .error ⟨path?, failure⟩ => .error (.disk (path?.getD input) failure)

/-- The paths of the source files that an input stands for. The first failure of the walk is the
end of it. -/
def paths (walk : DirectoryWalk) (disk : FileSystem) (input : Path) :
    Except CompileError (List Path) :=
  if !disk.isDirectory input then .ok [input]
  else do
    let found ← (walk disk input).mapM (visited input)
    return (found.filter fun path => disk.isFile path && isSource path).mergeSort Path.precedes

def load (walk : DirectoryWalk) (disk : FileSystem) (input : Path) :
    Except CompileError (List SourceFile) := do
  (← paths walk disk input).mapM (read disk)

def tokens (file : SourceFile) : Except CompileError (List Token) :=
  Lexer.tokenize file.text file.path.text

/-- The tokens of all files. No token stretches from one file into the next. -/
def tokensOfAll (files : List SourceFile) : Except CompileError (List Token) := do
  return (← files.mapM tokens).flatten

end SourceFile

end ResourceCompiler

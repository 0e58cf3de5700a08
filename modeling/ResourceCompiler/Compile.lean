import ResourceCompiler.Analysis.Run
import ResourceCompiler.Assembly.Target
import ResourceCompiler.Container.Format
import ResourceCompiler.Source.File

/-!
Compilation from source to the bytes of a container. The output is written when all else has
succeeded, so a failed compilation leaves the disk as it was.
-/

namespace ResourceCompiler

structure CompileOptions where
  format : Format
  /-- Where imports are looked for after the directory of the importing file. -/
  includeDirectories : List Path
deriving DecidableEq, Repr

/-- A resource as it was laid out. -/
structure ResourceSummary where
  typeCode : String
  id : Int64
  name : String
  size : Nat
deriving DecidableEq, Repr

/-- What a compilation gives. -/
structure Artifact where
  bytes : ByteArray
  resources : List ResourceSummary
  /-- The texts that the source prints. -/
  messages : Array String
  diagnostics : Array Diagnostic

namespace Container

def summaries (c : Container) : List ResourceSummary :=
  c.resources.map fun (code, r) => ⟨code, r.id, r.name, r.data.size⟩

end Container

namespace Compile

def compileTokens (disk : FileSystem) (options : CompileOptions) (tokens : List Token) :
    Except CompileError Artifact := do
  let (analysed, analysis) :=
    (Analysis.start tokens).run ⟨disk, options.includeDirectories⟩
  analysed
  let (assembled, assembly) :=
    Target.assemble disk analysis.registry analysis.instances.toList (.start analysis.diagnostics)
  let container ← assembled
  let bytes ← container.encode options.format
  return ⟨bytes, container.summaries, analysis.messages, assembly.diagnostics⟩

/-- Compiles a text as if it were the contents of a file. -/
def compileText (disk : FileSystem) (options : CompileOptions) (text file : String) :
    Except CompileError Artifact := do
  compileTokens disk options (← Lexer.tokenize text file)

/-- The tokens of a source file, or of all source files below a directory. -/
def loadTokens (walk : DirectoryWalk) (disk : FileSystem) (input : Path) :
    Except CompileError (List Token) := do
  SourceFile.tokensOfAll (← SourceFile.load walk disk input)

/-- Compiles a source file, or all source files below a directory. -/
def compilePath (walk : DirectoryWalk) (disk : FileSystem) (options : CompileOptions)
    (input : Path) : Except CompileError Artifact := do
  compileTokens disk options (← loadTokens walk disk input)

/-- Writes an output file. The directories that it stands in are created first. -/
def writeOutput (output : Path) (bytes : ByteArray) (disk : FileSystem) :
    Except CompileError Unit × FileSystem :=
  let write (disk : FileSystem) : Except CompileError Unit × FileSystem :=
    match disk.writeFile output bytes with
    | .ok written => (.ok (), written)
    | .error failure => (.error (.disk output failure), disk)
  if output.directory.text.isEmpty then write disk
  else
    match disk.provideDirectory output.directory with
    | (.ok (), disk) => write disk
    | (.error failure, disk) => (.error (.disk output.directory failure), disk)

/-- Compiles a source file, or all source files below a directory, into an output file. -/
def compileToFile (walk : DirectoryWalk) (disk : FileSystem) (options : CompileOptions)
    (input output : Path) : Except CompileError Artifact × FileSystem :=
  match loadTokens walk disk input with
  | .error e => (.error e, disk)
  | .ok tokens =>
    match compileTokens disk options tokens with
    | .error e => (.error e, disk)
    | .ok artifact =>
      match writeOutput output artifact.bytes disk with
      | (.error e, disk) => (.error e, disk)
      | (.ok (), disk) => (.ok artifact, disk)

end Compile

end ResourceCompiler

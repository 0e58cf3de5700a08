import ResourceCompiler.Compile

/-!
The command line. It is read from left to right and the first thing that settles it wins: a fault,
or a request for help or for the version. Otherwise one input is compiled.
-/

namespace ResourceCompiler

/-- An option that takes a value. -/
inductive Setting
  | output | format | includeDirectory
deriving DecidableEq, Repr, Inhabited

namespace Setting

def all : List Setting := [.output, .format, .includeDirectory]

def letter : Setting → Char
  | .output => 'o'
  | .format => 'f'
  | .includeDirectory => 'I'

def name : Setting → String
  | .output => "output"
  | .format => "format"
  | .includeDirectory => "include"

def describe : Setting → String
  | .output => "--output <OUTPUT>"
  | .format => "--format <FORMAT>"
  | .includeDirectory => "--include <DIR>"

end Setting

/-- What one argument is, taken by itself. -/
inductive Argument
  | plain (text : String)
  /-- An option with its value, in one argument. -/
  | given (setting : Setting) (value : String)
  /-- An option whose value is the next argument. -/
  | wanting (setting : Setting)
  | help
  | version
  /-- What follows is taken as it stands. -/
  | endOfOptions
  | unknown (text : String)
deriving DecidableEq, Repr

namespace Argument

/-- A value that is attached with an equals sign. -/
def attached? : List Char → Option String
  | '=' :: value => some (String.ofList value)
  | _ => none

/-- An option by its name. -/
def ofName (text : String) (body : List Char) : Argument :=
  let name := String.ofList (body.takeWhile (· ≠ '='))
  let value := attached? (body.dropWhile (· ≠ '='))
  match Setting.all.find? (·.name == name), value with
  | some setting, some value => .given setting value
  | some setting, none => .wanting setting
  | none, some _ => .unknown text
  | none, none =>
    if name = "help" then .help else if name = "version" then .version else .unknown text

/-- An option by its letter. What follows the letter is the value. -/
def ofLetter (text : String) (letter : Char) (value : List Char) : Argument :=
  match Setting.all.find? (·.letter == letter) with
  | some setting =>
    if value.isEmpty then .wanting setting
    else .given setting ((attached? value).getD (String.ofList value))
  | none => if letter = 'h' then .help else if letter = 'V' then .version else .unknown text

/-- A dash alone is no option. -/
def classify (text : String) : Argument :=
  match text.toList with
  | ['-', '-'] => .endOfOptions
  | '-' :: '-' :: body => ofName text body
  | '-' :: letter :: value => ofLetter text letter value
  | _ => .plain text

end Argument

inductive UsageFault
  | unexpected (argument : String)
  | missingInput
  | emptyInput
  | missingValue (setting : Setting)
  | repeated (setting : Setting)
  | invalidFormat (text reason : String)
deriving DecidableEq, Repr

def UsageFault.describe : UsageFault → String
  | .unexpected argument => "unexpected argument '" ++ argument ++ "' found"
  | .missingInput => "the following required arguments were not provided:\n  <INPUT>"
  | .emptyInput => "a value is required for '<INPUT>' but none was supplied"
  | .missingValue setting =>
    "a value is required for '" ++ setting.describe ++ "' but none was supplied"
  | .repeated setting =>
    "the argument '" ++ setting.describe ++ "' cannot be used multiple times"
  | .invalidFormat text reason =>
    "invalid value '" ++ text ++ "' for '" ++ Setting.format.describe ++ "': " ++ reason

/-- What a command line asks for. -/
inductive Request
  | compile (input output : Path) (options : CompileOptions)
  | help
  | version
deriving DecidableEq, Repr

/-- What has been read of a command line. -/
structure Draft where
  input : Option Path
  output : Option Path
  format : Option Format
  includeDirectories : List Path

namespace Draft

def blank : Draft := ⟨none, none, none, []⟩

def defaultOutput : Path := ⟨"kestrel-plugin.kdat"⟩

/-- There is one input. -/
def takeInput (d : Draft) (text : String) : Except UsageFault Draft :=
  if d.input.isSome then .error (.unexpected text)
  else if text.isEmpty then .error .emptyInput
  else .ok { d with input := some ⟨text⟩ }

/-- Only directories may be given more than once, and no path is empty. -/
def take (d : Draft) (setting : Setting) (text : String) : Except UsageFault Draft :=
  match setting with
  | .output =>
    if d.output.isSome then .error (.repeated .output)
    else if text.isEmpty then .error (.missingValue .output)
    else .ok { d with output := some ⟨text⟩ }
  | .format =>
    if d.format.isSome then .error (.repeated .format)
    else match Format.parse text with
      | .ok format => .ok { d with format := some format }
      | .error e => .error (.invalidFormat text e.message)
  | .includeDirectory =>
    if text.isEmpty then .error (.missingValue .includeDirectory)
    else .ok { d with includeDirectories := d.includeDirectories ++ [⟨text⟩] }

def complete (d : Draft) : Except UsageFault Request :=
  match d.input with
  | none => .error .missingInput
  | some input =>
    .ok (.compile input (d.output.getD defaultOutput)
      ⟨d.format.getD .standard, d.includeDirectories⟩)

end Draft

/-- What a run of the program leaves. -/
structure Outcome where
  exitCode : UInt32
  /-- The standard output and the standard error stream. -/
  output : String
  errorOutput : String
  disk : FileSystem

namespace CommandLine

def readFrom (draft : Draft) : List String → Except UsageFault Request
  | [] => draft.complete
  | argument :: rest =>
    match Argument.classify argument with
    | .plain text => do readFrom (← draft.takeInput text) rest
    | .given setting value => do readFrom (← draft.take setting value) rest
    | .wanting setting =>
      match rest with
      | [] => .error (.missingValue setting)
      | value :: rest =>
        match Argument.classify value with
        | .plain value => do readFrom (← draft.take setting value) rest
        | _ => .error (.missingValue setting)
    | .help => .ok .help
    | .version => .ok .version
    | .endOfOptions => do (← rest.foldlM Draft.takeInput draft).complete
    | .unknown text => .error (.unexpected text)

def read (arguments : List String) : Except UsageFault Request :=
  readFrom .blank arguments

def versionText : String := "kas 0.1.0\n"

def usageText : String := "Usage: kas [OPTIONS] <INPUT>\n"

def helpText : String :=
  "Compile KDL sources into a resource file\n\n" ++ usageText ++ "\n" ++
  "Arguments:\n" ++
  "  <INPUT>  A `.kdl` file, or a directory whose `.kdl` files are all compiled\n\n" ++
  "Options:\n" ++
  "  -o, --output <OUTPUT>  [default: " ++ Draft.defaultOutput.text ++ "]\n" ++
  "  -f, --format <FORMAT>  Output format: standard, extended, rez [default: standard]\n" ++
  "  -I, --include <DIR>    Additional directory searched by @import (repeatable)\n" ++
  "  -h, --help             Print help\n" ++
  "  -V, --version          Print version\n"

def usageReport (fault : UsageFault) : String :=
  "error: " ++ fault.describe ++ "\n\n" ++ usageText ++ "\nFor more information, try '--help'.\n"

/-- One cause of a failure. All its lines start at the same column. -/
def causeText (lead indent text : String) : String :=
  lead ++ String.intercalate ("\n" ++ indent) ((Text.pieces '\n' text.toList).map String.ofList)

/-- The report on a failed compilation. A refusal by the disk counts as two causes, which are
numbered: what could not be done, and what the disk said. -/
def failureReport (input : Path) (e : CompileError) : String :=
  "Error: failed to compile " ++ input.text ++ "\n\nCaused by:\n" ++
    match e with
    | .disk _ failure =>
      causeText "    0: " "       " e.message ++ "\n" ++
        causeText "    1: " "       " failure.describe ++ "\n"
    | _ => causeText "    " "    " e.message ++ "\n"

/-- What a failed compilation leaves. A breakdown is not reported as an error. -/
def failed (disk : FileSystem) (input : Path) : CompileError → Outcome
  | .breakdown cause => ⟨101, "", cause.describe ++ "\n", disk⟩
  | e => ⟨1, "", failureReport input e, disk⟩

/-- Compiles an input, and prints the messages of a source that compiled. -/
def runCompile (walk : DirectoryWalk) (disk : FileSystem) (input output : Path)
    (options : CompileOptions) : Outcome :=
  match Compile.compileToFile walk disk options input output with
  | (.ok artifact, disk) =>
    ⟨0, artifact.messages.foldl (fun text message => text ++ message ++ "\n") "", "", disk⟩
  | (.error e, disk) => failed disk input e

def run (walk : DirectoryWalk) (disk : FileSystem) (arguments : List String) : Outcome :=
  match read arguments with
  | .ok (.compile input output options) => runCompile walk disk input output options
  | .ok .help => ⟨0, helpText, "", disk⟩
  | .ok .version => ⟨0, versionText, "", disk⟩
  | .error fault => ⟨2, "", usageReport fault, disk⟩

end CommandLine

end ResourceCompiler

import ResourceCompiler.Disk.Path
import ResourceCompiler.Disk.Failure
import ResourceCompiler.Report.Fault
import ResourceCompiler.Report.Diagnostic

/-!
The error that ends a compilation. There is no recovery: the first one is the result.
-/

namespace ResourceCompiler

/-- What the program does not check for. It stops there without an error of its own. -/
inductive Breakdown
  /-- Two sizes add up to more than a word of the machine can be. -/
  | sumOverflow
  /-- More bytes are asked for than a buffer can hold. -/
  | capacityOverflow
  /-- A loop goes round without reading, and would do so for ever. -/
  | endlessLoop
deriving DecidableEq, Repr

def Breakdown.describe : Breakdown → String
  | .sumOverflow => "attempt to add with overflow"
  | .capacityOverflow => "capacity overflow"
  | .endlessLoop => "endless loop"

inductive CompileError
  | disk (path : Path) (failure : DiskFailure)
  | lexical (location : Location) (fault : LexicalFault)
  | grammar (location : Location) (fault : GrammarFault)
  | meaning (location : Location) (fault : MeaningFault)
  | layout (fault : LayoutFault)
  | unsupportedFormat (name : String)
  /-- No error that is reported: nothing comes of the compilation. -/
  | breakdown (cause : Breakdown)
deriving DecidableEq, Repr

namespace CompileError

/-- The text of the error on its own. -/
def message : CompileError → String
  | .disk path failure => "i/o error on " ++ path.text ++ ": " ++ failure.describe
  | .lexical location fault => location.text ++ ": lexical error: " ++ fault.describe
  | .grammar location fault => location.text ++ ": syntax error: " ++ fault.describe
  | .meaning location fault => location.text ++ ": " ++ fault.describe
  | .layout fault => "layout error: " ++ fault.describe
  | .unsupportedFormat name => "unsupported output format: " ++ name
  | .breakdown cause => cause.describe

/-- Where in the source the error stands, for those that stand in the source. -/
def location? : CompileError → Option Location
  | .lexical location _ | .grammar location _ | .meaning location _ => some location
  | _ => none

/-- The error as a line of the report. There the place comes from the diagnostic, so the message
does not repeat it. -/
def toDiagnostic (e : CompileError) : Diagnostic :=
  match e with
  | .disk path _ => ⟨.error, e.message, ⟨path.text, 0⟩, some .diskError⟩
  | .lexical location fault => ⟨.error, fault.describe, location, some .lexicalError⟩
  | .grammar location fault => ⟨.error, fault.describe, location, some .grammarError⟩
  | .meaning location fault => ⟨.error, fault.describe, location, some .meaningError⟩
  | .layout fault => ⟨.error, fault.describe, .unknown, some .layoutError⟩
  | .unsupportedFormat _ => ⟨.error, e.message, .unknown, some .formatError⟩
  | .breakdown cause => ⟨.error, cause.describe, .unknown, none⟩

end CompileError

end ResourceCompiler

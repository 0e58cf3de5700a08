import ResourceCompiler.Source.Location

/-!
Diagnostics: what a compilation says beside its result.
-/

namespace ResourceCompiler

inductive Severity
  | error | warning | note
deriving DecidableEq, Repr, Inhabited

def Severity.describe : Severity → String
  | .error => "error"
  | .warning => "warning"
  | .note => "note"

/-- The number under which a diagnostic is documented. -/
inductive DiagnosticCode
  | diskError | lexicalError | grammarError | meaningError | layoutError | formatError
  | deprecatedField | duplicateResource
deriving DecidableEq, Repr, Inhabited

def DiagnosticCode.describe : DiagnosticCode → String
  | .diskError => "E0000"
  | .lexicalError => "E0001"
  | .grammarError => "E0002"
  | .meaningError => "E0003"
  | .layoutError => "E0004"
  | .formatError => "E0005"
  | .deprecatedField => "W0001"
  | .duplicateResource => "W0002"

structure Diagnostic where
  severity : Severity
  message : String
  location : Location
  code : Option DiagnosticCode
deriving DecidableEq, Repr, Inhabited

namespace Diagnostic

/-- One line of a report: the place, the severity with the code if there is one, the message. -/
def text (d : Diagnostic) : String :=
  d.location.text ++ ": " ++ d.severity.describe ++
    (match d.code with
      | some code => "[" ++ code.describe ++ "]: "
      | none => ": ") ++ d.message

def note (message : String) (location : Location) : Diagnostic :=
  ⟨.note, message, location, none⟩

def warning (code : DiagnosticCode) (message : String) (location : Location) : Diagnostic :=
  ⟨.warning, message, location, some code⟩

end Diagnostic

end ResourceCompiler

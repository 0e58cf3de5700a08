import ResourceCompiler.Container.Standard
import ResourceCompiler.Container.Extended
import ResourceCompiler.Container.Rez

/-!
The output formats by name.
-/

namespace ResourceCompiler

inductive Format
  | standard | extended | rez
deriving DecidableEq, Repr, Inhabited

namespace Format

def all : List Format := [.standard, .extended, .rez]

def name : Format → String
  | .standard => "standard"
  | .extended => "extended"
  | .rez => "rez"

/-- A format is found by its name, in capitals or not. -/
def parse (text : String) : Except CompileError Format :=
  match all.find? fun format => format.name.toList == text.toList.map Char.toLower with
  | some format => .ok format
  | none => .error (.unsupportedFormat text)

end Format

def Container.encode (c : Container) : Format → Except CompileError ByteArray
  | .standard => Standard.encode c
  | .extended => Extended.encode c
  | .rez => Rez.encode c

end ResourceCompiler

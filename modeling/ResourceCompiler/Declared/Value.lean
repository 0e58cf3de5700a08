import ResourceCompiler.Source.Location

/-!
Values as they are written in source text. They stay textual: what a value means depends on the
slot that it is stored in.
-/

namespace ResourceCompiler

/-- The form of a literal, known from how it is written. -/
inductive ValueForm
  | identifier | resourceId | integer | string | percentage | fileReference | color
deriving DecidableEq, Repr, Inhabited

namespace ValueForm

def describe : ValueForm → String
  | .identifier => "identifier"
  | .resourceId => "resource id"
  | .integer => "integer"
  | .string => "string"
  | .percentage => "percentage"
  | .fileReference => "file reference"
  | .color => "color"

/-- Every form. -/
def all : List ValueForm :=
  [.identifier, .resourceId, .integer, .string, .percentage, .fileReference, .color]

end ValueForm

structure Value where
  form : ValueForm
  text : String
  location : Location
deriving DecidableEq, Repr, Inhabited

end ResourceCompiler

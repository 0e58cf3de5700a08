/-!
Where in the source something was written.
-/

namespace ResourceCompiler

/-- A file name and a line, counted from 1. -/
structure Location where
  file : String
  line : Nat
deriving DecidableEq, Repr, Inhabited

namespace Location

/-- The place of things that no source text stands behind. -/
def unknown : Location := ⟨"<unknown>", 0⟩

def text (place : Location) : String := place.file ++ ":" ++ toString place.line

end Location

end ResourceCompiler

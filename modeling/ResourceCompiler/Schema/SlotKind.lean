import ResourceCompiler.Declared.Value

/-!
How a slot of a resource is encoded.
-/

namespace ResourceCompiler

inductive SlotKind
  | integer (width : Nat) (signed : Bool)
  | resourceReference
  | bitmask (width : Nat)
  | pascalString
  /-- Without a fixed length the text ends with a zero byte and may have any length. -/
  | cString (fixedLength : Option Nat)
  | color
deriving DecidableEq, Repr, Inhabited

namespace SlotKind

/-- Whether a literal of this form may be stored. A slot with symbols takes identifiers as
well, which is the slot's matter and not the kind's. -/
def accepts : SlotKind → ValueForm → Bool
  | .resourceReference, .fileReference | .resourceReference, .resourceId => true
  | .integer _ _, .identifier | .integer _ _, .integer | .integer _ _, .percentage => true
  | .bitmask _, .identifier | .bitmask _, .integer => true
  | .pascalString, .string | .cString _, .string => true
  | .color, .color => true
  | _, _ => false

/-- Whether numbers below zero may be stored. -/
def isSigned : SlotKind → Bool
  | .integer _ signed => signed
  | .resourceReference => true
  | _ => false

def describe : SlotKind → String
  | .integer width true => "integer(" ++ toString width ++ ")"
  | .integer width false => "unsigned(" ++ toString width ++ ")"
  | .resourceReference => "resource_reference"
  | .bitmask width => "bitmask(" ++ toString width ++ ")"
  | .pascalString => "p_string"
  | .cString none => "c_string"
  | .cString (some length) => "c_string(" ++ toString length ++ ")"
  | .color => "color"

end SlotKind

end ResourceCompiler

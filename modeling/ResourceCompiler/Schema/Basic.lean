import ResourceCompiler.Schema.IdMapping
import ResourceCompiler.Report.Error

/-!
Compiled type definitions: the binary layout of one type of resource as fields of slots at fixed
offsets, and the fields through which it declares resources of other types.
-/

namespace ResourceCompiler

/-- A name that stands for a number. -/
structure Symbol where
  name : String
  value : Int64
deriving DecidableEq, Repr, Inhabited

/-- One typed component of a field. -/
structure Slot where
  name : String
  kind : SlotKind
  offset : Nat
  /-- The bytes kept free for the slot, which a text without a fixed length may overrun. -/
  size : Nat
  symbols : List Symbol
  default : Option Value
deriving DecidableEq, Repr

namespace Slot

/-- Symbols let a slot of any kind take identifiers. -/
def permits (s : Slot) (form : ValueForm) : Bool :=
  (form == .identifier && !s.symbols.isEmpty) || s.kind.accepts form

def symbol? (s : Slot) (name : String) : Option Symbol := s.symbols.find? (·.name == name)

/-- Where the bytes behind the slot start. -/
def limit (s : Slot) : Nat := s.offset + s.size

/-- The greatest word of the machine. Offsets and sizes are such words. -/
def maxWord : Nat := 0xFFFFFFFFFFFFFFFF

/-- The limit as it is computed, in a word. No definition is refused because of it, and nothing
looks after the sum either. -/
def checkedLimit (s : Slot) : Except CompileError Nat :=
  if s.limit ≤ maxWord then .ok s.limit else .error (.breakdown .sumOverflow)

end Slot

/-- The least size that covers all of some blocks, from the positions behind them. -/
def coveringSize (limits : List Nat) : Nat := limits.foldl max 0

structure Field where
  name : String
  required : Bool
  /-- Why the field should no longer be used; empty as long as it may be. -/
  deprecation : String
  slots : List Slot
deriving DecidableEq, Repr

namespace Field

def isDeprecated (f : Field) : Bool := !f.deprecation.isEmpty

/-- The least size of a resource with this field. -/
def requiredSize (f : Field) : Nat := coveringSize (f.slots.map Slot.limit)

/-- The required size as it is computed. -/
def checkedSize (f : Field) : Except CompileError Nat := do
  return coveringSize (← f.slots.mapM Slot.checkedLimit)

end Field

/-- A field that declares a nested resource of another type. -/
structure Reference where
  field : String
  targetType : String
  /-- The first and the last id that the nested resource may have. -/
  lowestId : Int64
  highestId : Int64
  mapping : IdMapping
deriving DecidableEq, Repr

namespace Reference

/-- A reference before anything is said about it: any id, mapped from the parent's. -/
def new (field : String) : Reference := ⟨field, "", .minValue, .maxValue, .identity⟩

def allows (r : Reference) (id : Int64) : Bool := r.lowestId ≤ id && id ≤ r.highestId

end Reference

structure Schema where
  name : String
  code : String
  fields : List Field
  references : List Reference
  location : Location
deriving DecidableEq, Repr

namespace Schema

def field? (s : Schema) (name : String) : Option Field := s.fields.find? (·.name == name)

def reference? (s : Schema) (field : String) : Option Reference :=
  s.references.find? (·.field == field)

/-- The least size of a resource of the type. -/
def requiredSize (s : Schema) : Nat := coveringSize (s.fields.map Field.requiredSize)

/-- The required size as it is computed. -/
def checkedSize (s : Schema) : Except CompileError Nat := do
  return coveringSize (← s.fields.mapM Field.checkedSize)

end Schema

end ResourceCompiler

import Std.Data.TreeMap
import ResourceCompiler.Schema.Basic
import ResourceCompiler.Report.Error

/-!
The types known to one compilation. Types are only ever added, and no two share a name or a code.
-/

namespace ResourceCompiler

structure Registry where
  schemas : Array Schema
  /-- The place of each type in `schemas`, by name and by code. -/
  byName : Std.TreeMap String Nat
  byCode : Std.TreeMap String Nat

namespace Registry

def empty : Registry := ⟨#[], ∅, ∅⟩

def size (r : Registry) : Nat := r.schemas.size

def isEmpty (r : Registry) : Bool := r.schemas.isEmpty

/-- The schema that an index entry leads to. -/
def at? (r : Registry) (place : Option Nat) : Option Schema := place.bind (r.schemas[·]?)

def get? (r : Registry) (name : String) : Option Schema := r.at? r.byName[name]?

/-- The type that owns a code. -/
def owner? (r : Registry) (code : String) : Option Schema := r.at? r.byCode[code]?

/-- Adds a type. A name that is taken is reported before a code that is taken. -/
def register (r : Registry) (schema : Schema) : Except CompileError Registry :=
  if r.byName.contains schema.name then
    .error (.meaning schema.location (.duplicateTypeName schema.name))
  else
    match r.owner? schema.code with
    | some owner => .error (.meaning schema.location (.duplicateTypeCode schema.code owner.name))
    | none => .ok {
        schemas := r.schemas.push schema
        byName := r.byName.insert schema.name r.schemas.size
        byCode := r.byCode.insert schema.code r.schemas.size }

/-- The type of a name that the source mentions at a place. -/
def lookup (r : Registry) (name : String) (location : Location) : Except CompileError Schema :=
  match r.get? name with
  | some schema => .ok schema
  | none => .error (.meaning location (.unknownType name))

end Registry

end ResourceCompiler

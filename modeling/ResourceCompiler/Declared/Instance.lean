import ResourceCompiler.Text.Integer
import ResourceCompiler.Declared.Value
import ResourceCompiler.Report.Error

/-!
Resources as the source declares them, before they are encoded.
-/

namespace ResourceCompiler

/-- The number that an integer-like value writes. -/
def Value.integer (v : Value) : Except CompileError Int :=
  match Text.parseInteger v.text with
  | some number => .ok number
  | none => .error (.meaning v.location (.invalidInteger v.text))

/-- One assignment of values to a field. -/
structure Assignment where
  field : String
  values : List Value
  location : Location
deriving DecidableEq, Repr, Inhabited

structure Instance where
  typeName : String
  id : Int64
  name : String
  assignments : List Assignment
  location : Location
deriving DecidableEq, Repr, Inhabited

namespace Instance

def assignment? (i : Instance) (field : String) : Option Assignment :=
  i.assignments.find? (·.field == field)

/-- Adds an assignment behind the others. A field is assigned once. -/
def assign (i : Instance) (a : Assignment) : Except CompileError Instance :=
  if (i.assignment? a.field).isSome then
    .error (.meaning a.location (.fieldAssignedTwice a.field i.id))
  else .ok { i with assignments := i.assignments ++ [a] }

theorem assignment_eq_none {i : Instance} {field : String} :
    i.assignment? field = none ↔ field ∉ i.assignments.map Assignment.field := by
  simp [assignment?]

theorem assign_eq_ok {i i' : Instance} {a : Assignment} :
    i.assign a = .ok i' ↔ a.field ∉ i.assignments.map Assignment.field ∧
      i' = { i with assignments := i.assignments ++ [a] } := by
  rw [← assignment_eq_none, assign]
  cases i.assignment? a.field <;> simp [eq_comm]

end Instance

/-- An instance with the resources that are declared inside its fields. -/
inductive InstanceTree
  | node (root : Instance) (nested : List InstanceTree)

namespace InstanceTree

def root : InstanceTree → Instance
  | node root _ => root

def nested : InstanceTree → List InstanceTree
  | node _ nested => nested

mutual

/-- Every instance of a tree, nested ones in front of the one that declares them. -/
def flatten : InstanceTree → List Instance
  | node root nested => flattenAll nested ++ [root]

def flattenAll : List InstanceTree → List Instance
  | [] => []
  | tree :: rest => tree.flatten ++ flattenAll rest

end

end InstanceTree

end ResourceCompiler

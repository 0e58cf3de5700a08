import ResourceCompiler.Text.Integer
import ResourceCompiler.Report.Fault

/-!
How the id of a nested resource follows from the id of the resource that declares it: operations
from left to right, starting from zero, within 64 bits.
-/

namespace ResourceCompiler

inductive IdOperator
  | add | subtract | multiply | divide
deriving DecidableEq, Repr, Inhabited

inductive IdOperand
  /-- The id of the declaring instance. -/
  | parent
  | literal (value : Int64)
deriving DecidableEq, Repr, Inhabited

structure IdMapping where
  operations : List (IdOperator × IdOperand)
deriving DecidableEq, Repr, Inhabited

namespace IdMapping

/-- Every nested resource has its parent's id. -/
def identity : IdMapping := ⟨[(.add, .parent)]⟩

def operandValue (parent : Int64) : IdOperand → Int64
  | .parent => parent
  | .literal value => value

/-- A result that has to stay within 64 bits. -/
def inRange (value : Int) : Except MeaningFault Int64 :=
  match Text.narrow64? value with
  | some id => .ok id
  | none => .error .mappingOverflow

/-- One operation on the result so far. Division drops the fraction. -/
def apply (operator : IdOperator) (acc operand : Int64) : Except MeaningFault Int64 :=
  match operator with
  | .add => inRange (acc.toInt + operand.toInt)
  | .subtract => inRange (acc.toInt - operand.toInt)
  | .multiply => inRange (acc.toInt * operand.toInt)
  | .divide =>
    if operand = 0 then .error .mappingDividesByZero
    else inRange (acc.toInt.tdiv operand.toInt)

def evaluate (mapping : IdMapping) (parent : Int64) : Except MeaningFault Int64 :=
  mapping.operations.foldlM (fun acc (operator, operand) =>
    apply operator acc (operandValue parent operand)) 0

end IdMapping

end ResourceCompiler

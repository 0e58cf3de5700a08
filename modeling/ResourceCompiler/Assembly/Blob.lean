import ResourceCompiler.Binary.Buffer
import ResourceCompiler.Declared.Instance
import ResourceCompiler.Schema.Basic

/-!
Writing one value into its slot. Nothing is written that does not fit.
-/

namespace ResourceCompiler.Blob

def outOfRange (value : Value) (room : Room) : CompileError :=
  .meaning value.location (.outOfRange value.text room)

/-- The bytes that a number takes in a slot. A slot for text lends all of its bytes. -/
def numberWidth (slot : Slot) : Nat :=
  match slot.kind with
  | .integer width _ | .bitmask width => width
  | .resourceReference => 2
  | .color => 4
  | .pascalString | .cString _ => slot.size

/-- The least number that a slot holds. -/
def leastNumber (width : Nat) (signed : Bool) : Int :=
  if signed then -(capacity width / 2 : Nat) else 0

/-- Numbers up to the greatest unsigned one fit a signed slot too. -/
def numberFits (width : Nat) (signed : Bool) (number : Int) : Bool :=
  leastNumber width signed ≤ number && number < capacity width

def writeNumber (blob : Buffer) (slot : Slot) (number : Int) (value : Value) :
    Except CompileError Buffer :=
  let width := numberWidth slot
  if !Buffer.isIntegerWidth width then
    .error (.meaning value.location (.noIntegerWidth slot.name width))
  else if !numberFits width slot.kind.isSigned number then
    .error (outOfRange value (.bytes width))
  else blob.writeInteger number width

def writeResourceId (blob : Buffer) (id : Int) (value : Value) : Except CompileError Buffer :=
  if -32768 ≤ id ∧ id ≤ 32767 then .ok (blob.putNumber 2 id)
  else .error (outOfRange value .resourceId)

def writeColor (blob : Buffer) (color : Int) (value : Value) : Except CompileError Buffer :=
  if 0 ≤ color ∧ color ≤ 0xFFFFFF then .ok (blob.putNumber 4 color)
  else .error (outOfRange value .color)

/-- The part of a text that a length-prefixed slot keeps. A slot without a size keeps it all. -/
def pascalText (slot : Slot) (text : String) : String :=
  if slot.size > 0 then String.ofList (text.toList.take (slot.size - 1)) else text

def writeText (blob : Buffer) (slot : Slot) (value : Value) : Except CompileError Buffer :=
  match slot.kind with
  | .pascalString => .ok (blob.writePascal (pascalText slot value.text))
  | .cString fixedLength => .ok (blob.writeCString value.text (fixedLength.getD 0))
  | kind => .error (.meaning value.location (.stringNotStorable value.text kind))

def writeSymbol (blob : Buffer) (slot : Slot) (value : Value) : Except CompileError Buffer :=
  match slot.symbol? value.text with
  | none => .error (.meaning value.location (.unknownSymbol value.text slot.name))
  | some symbol =>
    match slot.kind with
    | .resourceReference => writeResourceId blob symbol.value.toInt value
    | _ => writeNumber blob slot symbol.value.toInt value

/-- Writes a value at the cursor. A file reference is written as the id that its file was given,
which is `imported`. -/
def writeValue (blob : Buffer) (slot : Slot) (value : Value) (imported : Int64) :
    Except CompileError Buffer :=
  match value.form with
  | .integer | .percentage => do writeNumber blob slot (← value.integer) value
  | .resourceId => do writeResourceId blob (← value.integer) value
  | .string => writeText blob slot value
  | .identifier => writeSymbol blob slot value
  | .fileReference => writeResourceId blob imported.toInt value
  | .color => do writeColor blob (← value.integer) value

end ResourceCompiler.Blob

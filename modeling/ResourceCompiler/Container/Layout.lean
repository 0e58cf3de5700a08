import ResourceCompiler.Binary.Buffer
import ResourceCompiler.Container.Basic

/-!
What the container formats share: checked fields, running positions, type codes and names.
-/

namespace ResourceCompiler.Layout

/-- Refuses a number that a field of `width` bytes cannot hold. -/
def fit (width : Nat) (quantity : Quantity) (value : Nat) : Except CompileError Unit :=
  if value < capacity width then .ok () else .error (.layout (.doesNotFit quantity value))

/-- Refuses an id outside the signed 16-bit range. -/
def fitId (id : Int64) : Except CompileError Unit :=
  if -32768 ≤ id.toInt ∧ id.toInt ≤ 32767 then .ok ()
  else .error (.layout (.idNotSixteenBit id))

/-- Where each of several neighbouring blocks starts. -/
def starts (first : Nat) : List Nat → List Nat
  | [] => []
  | size :: rest => first :: starts (first + size) rest

/-- The four bytes of a type code. -/
def typeCode (code : String) : Except CompileError (List UInt8) :=
  let encoded := MacRoman.encode code
  if encoded.length = 4 then .ok encoded
  else .error (.layout (.typeCodeLength code encoded.length))

/-- A name as it stands in a list of names. A resource without a name takes no room there. -/
def nameBlock (r : Resource) : List UInt8 :=
  if r.name.isEmpty then [] else Buffer.pascalBytes r.name

/-- Where each name starts in the list of names. -/
def nameStarts (resources : List Resource) : List Nat :=
  starts 0 (resources.map fun r => (nameBlock r).length)

/-- How many resources stand in front of each type's own. -/
def groupStarts (groups : List TypeGroup) : List Nat :=
  starts 0 (groups.map (·.resources.size))

/-- Counts are stored less one, so that no count at all wraps round. -/
def countField (width count : Nat) : List UInt8 :=
  ByteOrder.big.encode width (wrap width ((count : Int) - 1))

/-- The data of all resources, each behind its length. -/
def dataBlocks (lengthWidth : Nat) (resources : List Resource) : ByteArray :=
  resources.foldl
    (fun blocks r => blocks ++ bytesOf (ByteOrder.big.encode lengthWidth r.data.size) ++ r.data)
    ByteArray.empty

end ResourceCompiler.Layout

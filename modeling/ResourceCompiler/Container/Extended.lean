import ResourceCompiler.Container.Layout

/-!
The 64-bit variant of the classic layout. All integers are big-endian.

    0     header: magic u64 (1), data offset u64 (256), map offset u64, data length u64,
          map length u64
    40    zeros up to 256
    256   data: for each resource its length u64 and its bytes
    map   copy of the header (40), reserved (6), attributes u16, type list offset u64 (64),
          name list offset u64
    +64   type list: type count less one u64; for each type its code (4), its resource count
          less one u64, the offset of its resource list u64
          resource lists: for each resource its id s64, name offset u64, attributes u8,
          data offset u64, reserved (4)
          name list: for each named resource a length u8 and the name
-/

namespace ResourceCompiler.Extended

open Layout

def magic : Nat := 1
def dataStart : Nat := 256
def headerLength : Nat := 40
def mapPreamble : Nat := 64
def typeEntryLength : Nat := 20
def resourceEntryLength : Nat := 29

/-- The name offset of a resource without a name. -/
def unnamed : Nat := 0xFFFFFFFFFFFFFFFF

def number (width n : Nat) : List UInt8 := ByteOrder.big.encode width n

def header (mapOffset dataLength mapLength : Nat) : List UInt8 :=
  number 8 magic ++ number 8 dataStart ++ number 8 mapOffset ++ number 8 dataLength ++
    number 8 mapLength

/-- The name offset that a resource's entry holds. -/
def nameOffset (r : Resource) (start : Nat) : Nat := if r.name.isEmpty then unnamed else start

def typeEntry (typeCount : Nat) (g : TypeGroup) (preceding : Nat) :
    Except CompileError (List UInt8) := do
  let code ← typeCode g.code
  return code ++ countField 8 g.resources.size ++
    number 8 (8 + typeEntryLength * typeCount + resourceEntryLength * preceding)

def resourceEntry (r : Resource) (nameOffset dataOffset : Nat) : List UInt8 :=
  number 8 (wrap 8 r.id.toInt) ++ number 8 nameOffset ++ number 1 0 ++ number 8 dataOffset ++
    number 4 0

def encode (c : Container) : Except CompileError ByteArray := do
  let resources := c.resources.map (·.2)
  let sizes := resources.map fun r => 8 + r.data.size
  let names := resources.flatMap nameBlock
  let typeCount := c.groups.length
  let dataLength := total sizes
  let mapOffset := dataStart + dataLength
  let nameListOffset :=
    mapPreamble + 8 + typeEntryLength * typeCount + resourceEntryLength * resources.length
  let mapLength := nameListOffset + names.length
  let types ← (c.groups.zip (groupStarts c.groups)).mapM fun (g, preceding) =>
    typeEntry typeCount g preceding
  let entries := (resources.zip ((nameStarts resources).zip (starts 0 sizes))).map
    fun (r, nameStart, dataOffset) => resourceEntry r (nameOffset r nameStart) dataOffset
  let head := header mapOffset dataLength mapLength
  return bytesOf head ++ zeros (dataStart - headerLength) ++ dataBlocks 8 resources ++
    bytesOf (head ++ List.replicate 6 0 ++ number 2 0 ++ number 8 mapPreamble ++
      number 8 nameListOffset ++ countField 8 typeCount ++ types.flatten ++ entries.flatten ++
      names)

end ResourceCompiler.Extended

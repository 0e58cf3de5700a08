import ResourceCompiler.Container.Layout

/-!
The classic resource fork. All integers are big-endian.

    0     header: data offset u32 (256), map offset u32, data length u32, map length u32
    16    zeros up to 256
    256   data: for each resource its length u32 and its bytes
    map   copy of the header (16), reserved (6), attributes u16, type list offset u16 (28),
          name list offset u16
    +28   type list: type count less one u16; for each type its code (4), its resource count
          less one u16, the offset of its resource list u16
          resource lists: for each resource its id s16, name offset u16, attributes u8,
          data offset u24, reserved (4), reserved (8)
          name list: for each named resource a length u8 and the name

Resource list offsets count from the type list, data offsets from the data, name offsets from the
name list.
-/

namespace ResourceCompiler.Standard

open Layout

def dataStart : Nat := 256
def mapPreamble : Nat := 28
def typeEntryLength : Nat := 8
def resourceEntryLength : Nat := 20

/-- The name offset of a resource without a name. -/
def unnamed : Nat := 0xFFFF

def number (width n : Nat) : List UInt8 := ByteOrder.big.encode width n

def header (mapOffset dataLength mapLength : Nat) : List UInt8 :=
  number 4 dataStart ++ number 4 mapOffset ++ number 4 dataLength ++ number 4 mapLength

/-- The name offset that a resource's entry holds. -/
def nameOffset (r : Resource) (start : Nat) : Except CompileError Nat :=
  if r.name.isEmpty then .ok unnamed
  else do
    fit 2 .nameListOffset start
    return start

def typeEntry (typeCount : Nat) (g : TypeGroup) (preceding : Nat) :
    Except CompileError (List UInt8) := do
  let listOffset := 2 + typeEntryLength * typeCount + resourceEntryLength * preceding
  let code ← typeCode g.code
  fit 2 .resourceCount g.resources.size
  fit 2 .resourceListOffset listOffset
  return code ++ countField 2 g.resources.size ++ number 2 listOffset

def resourceEntry (r : Resource) (nameOffset dataOffset : Nat) :
    Except CompileError (List UInt8) := do
  fitId r.id
  if capacity 3 ≤ dataOffset then throw (.layout (.dataOffsetTooLarge dataOffset))
  return number 2 (wrap 2 r.id.toInt) ++ number 2 nameOffset ++ number 1 0 ++
    number 3 dataOffset ++ number 4 0 ++ number 8 0

def encode (c : Container) : Except CompileError ByteArray := do
  let resources := c.resources.map (·.2)
  let sizes := resources.map fun r => 4 + r.data.size
  let names := resources.flatMap nameBlock
  let typeCount := c.groups.length
  let dataLength := total sizes
  let mapOffset := dataStart + dataLength
  let nameListOffset :=
    mapPreamble + 2 + typeEntryLength * typeCount + resourceEntryLength * resources.length
  let mapLength := nameListOffset + names.length
  resources.forM fun r => fit 4 .resourceDataLength r.data.size
  let nameOffsets ← (resources.zip (nameStarts resources)).mapM fun (r, start) =>
    nameOffset r start
  fit 4 .mapOffset mapOffset
  fit 4 .dataLength dataLength
  fit 4 .mapLength mapLength
  fit 2 .nameListOffset nameListOffset
  fit 2 .typeCount typeCount
  let types ← (c.groups.zip (groupStarts c.groups)).mapM fun (g, preceding) =>
    typeEntry typeCount g preceding
  let entries ← (resources.zip (nameOffsets.zip (starts 0 sizes))).mapM
    fun (r, nameOffset, dataOffset) => resourceEntry r nameOffset dataOffset
  let head := header mapOffset dataLength mapLength
  return bytesOf head ++ zeros (dataStart - 16) ++ dataBlocks 4 resources ++
    bytesOf (head ++ List.replicate 6 0 ++ number 2 0 ++ number 2 mapPreamble ++
      number 2 nameListOffset ++ countField 2 typeCount ++ types.flatten ++ entries.flatten ++
      names)

end ResourceCompiler.Standard

import ResourceCompiler.Container.Layout

/-!
The indexed container: a little-endian index, the data of all resources, and a big-endian map.

    0     "BRGR", version u32 (1), header length u32
    12    for each resource and then for the map: offset u32, length u32, reserved u32
          "resource.map" and a zero byte
          data of the resources, back to back
    map   8 u32, type count u32
          for each type its code (4), offset u32 from the start of the map, resource count u32
          for each resource its index u32 from 1, type code (4), id s16, name (256)
-/

namespace ResourceCompiler.Rez

open Layout

/-- The letters BRGR. -/
def signature : List UInt8 := [0x42, 0x52, 0x47, 0x52]
def version : Nat := 1
def mapName : String := "resource.map"
def indexEntryLength : Nat := 12
def typeEntryLength : Nat := 12
def resourceEntryLength : Nat := 266
def nameLength : Nat := 256

def little (width n : Nat) : List UInt8 := ByteOrder.little.encode width n
def big (width n : Nat) : List UInt8 := ByteOrder.big.encode width n

/-- Where the first data byte of a container of so many resources stands. -/
def headerLength (resourceCount : Nat) : Nat :=
  12 + indexEntryLength * (resourceCount + 1) + (Buffer.cStringBytes mapName 0).length

/-- One entry of the index, of a resource or of the map. -/
def indexEntry (offset length : Nat) : List UInt8 :=
  little 4 offset ++ little 4 length ++ little 4 0

def resourceIndexEntry (r : Resource) (offset : Nat) : Except CompileError (List UInt8) := do
  fit 4 .resourceOffset offset
  fit 4 .resourceLength r.data.size
  return indexEntry offset r.data.size

def typeEntry (typeCount : Nat) (g : TypeGroup) (preceding : Nat) :
    Except CompileError (List UInt8) := do
  let listOffset := 8 + typeEntryLength * typeCount + resourceEntryLength * preceding
  let code ← typeCode g.code
  fit 4 .typeListOffset listOffset
  fit 4 .resourceCount g.resources.size
  return code ++ big 4 listOffset ++ big 4 g.resources.size

/-- The name field keeps its last byte for the zero that ends the name. -/
def nameField (name : String) : List UInt8 :=
  Buffer.padded nameLength ((MacRoman.encode name).take (nameLength - 1))

def resourceEntry (code : String) (r : Resource) (index : Nat) :
    Except CompileError (List UInt8) := do
  fit 4 .resourceIndex index
  let code ← typeCode code
  fitId r.id
  return big 4 index ++ code ++ big 2 (wrap 2 r.id.toInt) ++ nameField r.name

def encode (c : Container) : Except CompileError ByteArray := do
  let resources := c.resources
  let sizes := resources.map fun (_, r) => r.data.size
  let typeCount := c.groups.length
  let dataOffset := headerLength resources.length
  let mapOffset := dataOffset + total sizes
  let mapLength := 8 + typeEntryLength * typeCount + resourceEntryLength * resources.length
  fit 4 .headerLength dataOffset
  let index ← (resources.zip (starts dataOffset sizes)).mapM fun ((_, r), offset) =>
    resourceIndexEntry r offset
  fit 4 .mapOffset mapOffset
  fit 4 .mapLength mapLength
  fit 4 .typeCount typeCount
  let types ← (c.groups.zip (groupStarts c.groups)).mapM fun (g, preceding) =>
    typeEntry typeCount g preceding
  let entries ← (resources.zip (List.range' 1 resources.length)).mapM fun ((code, r), index) =>
    resourceEntry code r index
  let head := signature ++ little 4 version ++ little 4 dataOffset ++ index.flatten ++
    indexEntry mapOffset mapLength ++ Buffer.cStringBytes mapName 0
  return resources.foldl (fun bytes (_, r) => bytes ++ r.data) (bytesOf head) ++
    bytesOf (big 4 8 ++ big 4 typeCount ++ types.flatten ++ entries.flatten)

end ResourceCompiler.Rez

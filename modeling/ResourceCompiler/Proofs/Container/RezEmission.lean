import ResourceCompiler.Proofs.Container.Emission
import ResourceCompiler.Proofs.Container.RezImage

/-!
The indexed format as a buffer takes it, and that the bytes and the refusals are those of the
encoder.
-/

namespace ResourceCompiler.Rez

open Buffer Layout Emission

/-- An index entry of a resource, and where the data of the next one starts. -/
def putIndexEntry (p : Buffer × Nat) (entry : String × Resource) :
    Except CompileError (Buffer × Nat) := do
  let (_, r) := entry
  fit 4 .resourceOffset p.2
  fit 4 .resourceLength r.data.size
  return (((p.1.putNumber 4 p.2).putNumber 4 r.data.size).putNumber 4 0, p.2 + r.data.size)

def putType (typeCount : Nat) (p : Buffer × Nat) (g : TypeGroup) :
    Except CompileError (Buffer × Nat) := do
  let out ← putCode g.code p.1
  let listOffset := 8 + typeEntryLength * typeCount + resourceEntryLength * p.2
  fit 4 .typeListOffset listOffset
  let out := out.putNumber 4 listOffset
  fit 4 .resourceCount g.resources.size
  return (out.putNumber 4 g.resources.size, p.2 + g.resources.size)

def putResource (out : Buffer) (entry : (String × Resource) × Nat) :
    Except CompileError Buffer := do
  let ((code, r), index) := entry
  fit 4 .resourceIndex index
  let out ← putCode code (out.putNumber 4 index)
  fitId r.id
  (out.putNumber 2 r.id.toInt).writeRaw (bytesOf (nameField r.name))

/-- The indexed format. -/
def emit (c : Container) : Except CompileError Buffer := do
  let resources := c.resources
  let out ← (Buffer.empty .little).writeRaw (bytesOf signature)
  let out := out.putNumber 4 version
  fit 4 .headerLength (headerLength resources.length)
  let out := out.putNumber 4 (headerLength resources.length)
  let (out, mapOffset) ← resources.foldlM putIndexEntry (out, headerLength resources.length)
  let typeCount := c.groups.length
  let mapLength := 8 + typeEntryLength * typeCount + resourceEntryLength * resources.length
  fit 4 .mapOffset mapOffset
  let out := out.putNumber 4 mapOffset
  fit 4 .mapLength mapLength
  let out := ((out.putNumber 4 mapLength).putNumber 4 0).writeCString mapName 0
  let out ← resources.foldlM (fun out (_, r) => out.writeRaw r.data) out
  let out := (out.withOrder .big).putNumber 4 (8 : Nat)
  fit 4 .typeCount typeCount
  let out := out.putNumber 4 typeCount
  let (out, _) ← c.groups.foldlM (putType typeCount) (out, 0)
  (resources.zip (List.range' 1 resources.length)).foldlM putResource out

/-! The parts as appended bytes -/

theorem put_index_entry_holding (bytes : List UInt8) (n : Nat) (entry : String × Resource) :
    putIndexEntry (holding .little bytes, n) entry = do
      return (holding .little (bytes ++ (← resourceIndexEntry entry.2 n)),
        n + entry.2.data.size) := by
  simp only [putIndexEntry, resourceIndexEntry, indexEntry, little, put_number_holding,
    ByteOrder.encode_wrap, wrap_zero, bind_assoc, pure_bind, List.append_assoc]

theorem put_type_holding (typeCount : Nat) (bytes : List UInt8) (n : Nat) (g : TypeGroup) :
    putType typeCount (holding .big bytes, n) g = do
      return (holding .big (bytes ++ (← typeEntry typeCount g n)), n + g.resources.size) := by
  simp only [putType, typeEntry, put_code_holding, put_number_holding, big,
    ByteOrder.encode_wrap, bind_assoc, pure_bind, List.append_assoc]

theorem put_resource_holding (bytes : List UInt8) (entry : (String × Resource) × Nat) :
    putResource (holding .big bytes) entry = do
      return holding .big (bytes ++ (← resourceEntry entry.1.1 entry.1.2 entry.2)) := by
  simp only [putResource, resourceEntry, put_code_holding, put_number_holding, big, bytesOf,
    ByteOrder.encode_wrap, write_raw_holding, bind_assoc, pure_bind, List.append_assoc]

/-- What stands in front of the index. -/
def start (c : Container) : List UInt8 :=
  signature ++ little 4 version ++ little 4 (dataOffset c)

/-- What stands between the index and the entries of the types. -/
def middle (c : Container) : List UInt8 :=
  indexEntry (mapOffset c) (mapLength c) ++ Buffer.cStringBytes mapName 0 ++
    (c.resources.map fun e => e.2.data.data.toList).flatten ++ big 4 8 ++ big 4 c.groups.length

theorem written_eq_start (c : Container) (index types entries : List UInt8) :
    c.resources.foldl (fun bytes (_, r) => bytes ++ r.data)
        (bytesOf (signature ++ little 4 version ++ little 4 (dataOffset c) ++ index ++
          indexEntry (mapOffset c) (mapLength c) ++ Buffer.cStringBytes mapName 0)) ++
      bytesOf (big 4 8 ++ big 4 c.groups.length ++ types ++ entries) =
        bytesOf (start c ++ index ++ middle c ++ types ++ entries) := by
  rw [data_eq, bytes_of_append]
  simp only [start, middle, List.append_assoc]

theorem encode_eq (c : Container) : encode c = do
    fit 4 .headerLength (dataOffset c)
    let index ← (c.resources.zip (starts (dataOffset c) (sizes c))).mapM fun ((_, r), offset) =>
      resourceIndexEntry r offset
    fit 4 .mapOffset (mapOffset c)
    fit 4 .mapLength (mapLength c)
    fit 4 .typeCount c.groups.length
    let types ← (c.groups.zip (groupStarts c.groups)).mapM fun (g, preceding) =>
      typeEntry c.groups.length g preceding
    let entries ← (c.resources.zip (List.range' 1 c.resources.length)).mapM
      fun ((code, r), index) => resourceEntry code r index
    return bytesOf (start c ++ index.flatten ++ middle c ++ types.flatten ++ entries.flatten) := by
  simp only [← written_eq_start]
  rfl

/-- What the buffer holds is what the encoder puts together. -/
theorem emit_eq_encode (c : Container) : (do return (← emit c).bytes) = encode c := by
  have hindex := fold_counted put_index_entry_holding
  have hdata := @fold_append .little (String × Resource)
    (fun out entry => out.writeRaw entry.2.data) (fun entry => return entry.2.data.data.toList)
    fun _ _ => write_raw_holding ..
  have htypes := fold_counted (put_type_holding c.groups.length)
  have hresources := fold_append put_resource_holding
  rw [encode_eq]
  unfold emit
  simp only [empty_eq_holding, write_raw_holding, put_number_holding, write_c_string_holding,
    with_order_holding, hindex, hdata, htypes, hresources, List.mapM_pure, bind_assoc, pure_bind,
    bytes_holding, start, middle, indexEntry, little, big, bytesOf, ByteOrder.encode_wrap, wrap_zero,
    List.append_assoc]
  rfl

end ResourceCompiler.Rez

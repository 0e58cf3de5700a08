import ResourceCompiler.Container.Standard
import ResourceCompiler.Proofs.Container.Emission

/-!
The classic format as a buffer takes it, and that the bytes and the refusals are those of the
encoder.
-/

namespace ResourceCompiler.Standard

open Buffer Layout Emission

def putHeader (mapOffset dataLength mapLength position : Nat) (out : Buffer) : Buffer :=
  ((((out.seek position).putNumber 4 dataStart).putNumber 4 mapOffset).putNumber 4
    dataLength).putNumber 4 mapLength

/-- A type, and how many resources stand in front of those of the next one. -/
def putType (typeCount : Nat) (p : Buffer × Nat) (g : TypeGroup) :
    Except CompileError (Buffer × Nat) := do
  let out ← putCode g.code p.1
  fit 2 .resourceCount g.resources.size
  let out := out.putNumber 2 ((g.resources.size : Int) - 1)
  let listOffset := 2 + typeEntryLength * typeCount + resourceEntryLength * p.2
  fit 2 .resourceListOffset listOffset
  return (out.putNumber 2 listOffset, p.2 + g.resources.size)

def putResource (out : Buffer) (entry : Resource × Nat × Nat) : Except CompileError Buffer := do
  let (r, nameOffset, dataOffset) := entry
  fitId r.id
  let out := ((out.putNumber 2 r.id.toInt).putNumber 2 nameOffset).putNumber 1 0
  if capacity 3 ≤ dataOffset then throw (.layout (.dataOffsetTooLarge dataOffset))
  return ((out.putNumber 3 dataOffset).putNumber 4 0).putNumber 8 0

/-- The classic format. -/
def emit (c : Container) : Except CompileError Buffer := do
  let resources := c.resources.map (·.2)
  let (out, dataOffsets) ← resources.foldlM
    (putData 4 dataStart (fit 4 .resourceDataLength)) ((Buffer.empty .big).padTo dataStart, [])
  let dataLength := out.size - dataStart
  let mapOffset := out.size
  let (names, nameOffsets) ← resources.foldlM
    (putName unnamed (fit 2 .nameListOffset)) (Buffer.empty .big, [])
  let typeCount := c.groups.length
  let nameListOffset :=
    mapPreamble + (2 + typeEntryLength * typeCount + resourceEntryLength * resources.length)
  let mapLength := nameListOffset + names.size
  fit 4 .mapOffset mapOffset
  fit 4 .dataLength dataLength
  fit 4 .mapLength mapLength
  let out := putHeader mapOffset dataLength mapLength 0 out
  let out := putHeader mapOffset dataLength mapLength mapOffset out
  let out := ((out.padTo (mapOffset + 16 + 6)).putNumber 2 0).putNumber 2 mapPreamble
  fit 2 .nameListOffset nameListOffset
  let out := out.putNumber 2 nameListOffset
  fit 2 .typeCount typeCount
  let out := out.putNumber 2 ((typeCount : Int) - 1)
  let (out, _) ← c.groups.foldlM (putType typeCount) (out, 0)
  let out ← (resources.zip (nameOffsets.zip dataOffsets)).foldlM putResource out
  out.writeRaw names.bytes

/-! The parts as appended bytes -/

theorem put_header_eq (mapOffset dataLength mapLength position : Nat) {out : Buffer}
    (h : out.order = .big) : putHeader mapOffset dataLength mapLength position out =
      (out.seek position).put (header mapOffset dataLength mapLength) := by
  have horder : (out.seek position).order = .big := h
  simp only [putHeader, put_nat (out.seek position), put_nat_put, horder, header, number]

theorem put_type_holding (typeCount : Nat) (bytes : List UInt8) (n : Nat) (g : TypeGroup) :
    putType typeCount (holding .big bytes, n) g = do
      return (holding .big (bytes ++ (← typeEntry typeCount g n)), n + g.resources.size) := by
  simp only [putType, typeEntry, put_code_holding, put_number_holding, countField, number,
    ByteOrder.encode_wrap, bind_assoc, pure_bind, List.append_assoc]

theorem put_resource_holding (bytes : List UInt8) (entry : Resource × Nat × Nat) :
    putResource (holding .big bytes) entry = do
      return holding .big (bytes ++ (← resourceEntry entry.1 entry.2.1 entry.2.2)) := by
  obtain ⟨r, nameOffset, dataOffset⟩ := entry
  simp only [putResource, resourceEntry, put_number_holding, number, bind_assoc,
    ByteOrder.encode_wrap, wrap_zero]
  split
  · rfl
  · simp only [pure_bind, List.append_assoc]

theorem length_header (mapOffset dataLength mapLength : Nat) :
    (header mapOffset dataLength mapLength).length = 16 := by
  simp [header, number, ByteOrder.length_encode]

theorem length_data_section_eq (c : Container) :
    (dataSection 4 dataStart (ordered c)).length = mapOffset c :=
  length_data_section ..

/-- The headers and the fixed part of the map. -/
theorem put_map_start (c : Container) :
    ((((putHeader (mapOffset c) (total (sizes c)) (mapLength c) (mapOffset c)
      (putHeader (mapOffset c) (total (sizes c)) (mapLength c) 0
        (holding .big (dataSection 4 dataStart (ordered c))))).padTo
          (mapOffset c + 16 + 6)).putNumber 2 0).putNumber 2 mapPreamble).putNumber 2
            (nameListOffset c) =
      holding .big (head c ++ (List.replicate (dataStart - 16) 0 ++
        (((ordered c).map (dataBlock 4)).flatten ++ (head c ++ preamble c)))) := by
  have hlength : (head c).length = 16 := length_header ..
  have hheaders := put_headers 4 (ordered c) 6
    (fun position _ => put_header_eq (mapOffset c) (total (sizes c)) (mapLength c) position)
    (by rw [length_header]; decide) (length_data_section_eq c)
  rw [← head, hlength] at hheaders
  rw [hheaders, put_number_holding, wrap_zero, put_nat_holding, put_nat_holding]
  simp only [preamble, number, List.append_assoc]

/-- What stands in front of the entries of the types. -/
def front (c : Container) : List UInt8 :=
  head c ++ (List.replicate (dataStart - 16) 0 ++ (((ordered c).map (dataBlock 4)).flatten ++
    (head c ++ (preamble c ++ countField 2 c.groups.length))))

theorem written_eq_front (c : Container) (types entries : List UInt8) :
    bytesOf (head c) ++ zeros (dataStart - 16) ++ dataBlocks 4 (ordered c) ++
      bytesOf (head c ++ List.replicate 6 0 ++ number 2 0 ++ number 2 mapPreamble ++
        number 2 (nameListOffset c) ++ countField 2 c.groups.length ++ types ++ entries ++
        names c) = bytesOf (front c ++ types ++ entries ++ names c) := by
  rw [zeros_eq, data_blocks_eq, bytes_of_append, bytes_of_append, bytes_of_append]
  simp only [front, preamble, List.append_assoc]

/-- The checks of the encoder in their order, and what it puts together. -/
theorem encode_eq (c : Container) : encode c = do
    (ordered c).forM fun r => fit 4 .resourceDataLength r.data.size
    let nameOffsets ← ((ordered c).zip (nameStarts (ordered c))).mapM fun (r, start) =>
      nameOffset r start
    fit 4 .mapOffset (mapOffset c)
    fit 4 .dataLength (total (sizes c))
    fit 4 .mapLength (mapLength c)
    fit 2 .nameListOffset (nameListOffset c)
    fit 2 .typeCount c.groups.length
    let types ← (c.groups.zip (groupStarts c.groups)).mapM fun (g, preceding) =>
      typeEntry c.groups.length g preceding
    let entries ← ((ordered c).zip (nameOffsets.zip (starts 0 (sizes c)))).mapM
      fun (r, nameOffset, dataOffset) => resourceEntry r nameOffset dataOffset
    return bytesOf (front c ++ types.flatten ++ entries.flatten ++ names c) := by
  simp only [← written_eq_front]
  rfl

/-- What the buffer holds is what the encoder puts together. -/
theorem emit_eq_encode (c : Container) : (do return (← emit c).bytes) = encode c := by
  have hnameOffset : mapPreamble + (2 + typeEntryLength * c.groups.length +
      resourceEntryLength * (ordered c).length) = nameListOffset c := by
    simp only [nameListOffset, Nat.add_assoc]
  have hnames : nameListOffset c + ((ordered c).flatMap nameBlock).length = mapLength c := rfl
  have hdata : mapOffset c - dataStart = total (sizes c) := Nat.add_sub_cancel_left ..
  have hcount : ByteOrder.big.encode 2 (wrap 2 ((c.groups.length : Int) - 1)) =
    countField 2 c.groups.length := rfl
  have htypes := fold_counted (put_type_holding c.groups.length)
  have hresources := fold_append put_resource_holding
  rw [encode_eq]
  unfold emit
  rw [show c.resources.map (·.2) = ordered c from rfl]
  simp only [put_data_section, put_names, bind_assoc, pure_bind, size_holding,
    length_data_section_eq, hnameOffset, hnames, hdata, put_map_start, put_number_holding, hcount,
    htypes, hresources, write_raw_holding, bytes_holding, front, bytesOf, List.append_assoc]
  rfl

end ResourceCompiler.Standard

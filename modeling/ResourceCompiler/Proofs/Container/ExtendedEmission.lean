import ResourceCompiler.Proofs.Container.Emission
import ResourceCompiler.Proofs.Container.ExtendedImage

/-!
The 64-bit format as a buffer takes it, and that the bytes and the refusals are those of the
encoder.
-/

namespace ResourceCompiler.Extended

open Buffer Layout Emission
open Standard (ordered names)

def putHeader (mapOffset dataLength mapLength position : Nat) (out : Buffer) : Buffer :=
  (((((out.seek position).putNumber 8 magic).putNumber 8 dataStart).putNumber 8
    mapOffset).putNumber 8 dataLength).putNumber 8 mapLength

def putType (typeCount : Nat) (p : Buffer × Nat) (g : TypeGroup) :
    Except CompileError (Buffer × Nat) := do
  let out ← putCode g.code p.1
  let out := out.putNumber 8 ((g.resources.size : Int) - 1)
  let listOffset := 8 + typeEntryLength * typeCount + resourceEntryLength * p.2
  return (out.putNumber 8 listOffset, p.2 + g.resources.size)

def putResource (out : Buffer) (entry : Resource × Nat × Nat) : Except CompileError Buffer := do
  let (r, nameOffset, dataOffset) := entry
  return ((((out.putNumber 8 r.id.toInt).putNumber 8 nameOffset).putNumber 1 0).putNumber 8
    dataOffset).putNumber 4 0

/-- The 64-bit format. -/
def emit (c : Container) : Except CompileError Buffer := do
  let resources := c.resources.map (·.2)
  let (out, dataOffsets) ← resources.foldlM
    (putData 8 dataStart fun _ => return) ((Buffer.empty .big).padTo dataStart, [])
  let dataLength := out.size - dataStart
  let mapOffset := out.size
  let (names, nameOffsets) ← resources.foldlM
    (putName unnamed fun _ => return) (Buffer.empty .big, [])
  let typeCount := c.groups.length
  let nameListOffset :=
    mapPreamble + (8 + typeEntryLength * typeCount + resourceEntryLength * resources.length)
  let mapLength := nameListOffset + names.size
  let out := putHeader mapOffset dataLength mapLength 0 out
  let out := putHeader mapOffset dataLength mapLength mapOffset out
  let out := ((out.padTo (mapOffset + headerLength + 6)).putNumber 2 0).putNumber 8 mapPreamble
  let out := out.putNumber 8 nameListOffset
  let out := out.putNumber 8 ((typeCount : Int) - 1)
  let (out, _) ← c.groups.foldlM (putType typeCount) (out, 0)
  let out ← (resources.zip (nameOffsets.zip dataOffsets)).foldlM putResource out
  out.writeRaw names.bytes

/-! The parts as appended bytes -/

theorem length_header (mapOffset dataLength mapLength : Nat) :
    (header mapOffset dataLength mapLength).length = headerLength := by
  simp [header, headerLength]

theorem put_header_eq (mapOffset dataLength mapLength position : Nat) {out : Buffer}
    (h : out.order = .big) : putHeader mapOffset dataLength mapLength position out =
      (out.seek position).put (header mapOffset dataLength mapLength) := by
  have horder : (out.seek position).order = .big := h
  simp only [putHeader, put_nat (out.seek position), put_nat_put, horder, header, number]

theorem put_type_holding (typeCount : Nat) (bytes : List UInt8) (n : Nat) (g : TypeGroup) :
    putType typeCount (holding .big bytes, n) g = do
      return (holding .big (bytes ++ (← typeEntry typeCount g n)), n + g.resources.size) := by
  simp only [putType, typeEntry, put_code_holding, put_number_holding, countField, number,
    ByteOrder.encode_wrap, bind_assoc, pure_bind, List.append_assoc]

theorem put_resource_holding (bytes : List UInt8) (entry : Resource × Nat × Nat) :
    putResource (holding .big bytes) entry = do
      return holding .big (bytes ++
        (← pure (resourceEntry entry.1 entry.2.1 entry.2.2))) := by
  obtain ⟨r, nameOffset, dataOffset⟩ := entry
  simp only [putResource, resourceEntry, put_number_holding, number, pure_bind,
    ByteOrder.encode_wrap, wrap_zero, List.append_assoc]

theorem length_data_section_eq (c : Container) :
    (dataSection 8 dataStart (ordered c)).length = mapOffset c :=
  length_data_section ..

/-- The headers and the fixed part of the map. -/
theorem put_map_start (c : Container) :
    ((((putHeader (mapOffset c) (total (sizes c)) (mapLength c) (mapOffset c)
      (putHeader (mapOffset c) (total (sizes c)) (mapLength c) 0
        (holding .big (dataSection 8 dataStart (ordered c))))).padTo
          (mapOffset c + headerLength + 6)).putNumber 2 0).putNumber 8 mapPreamble).putNumber 8
            (nameListOffset c) =
      holding .big (head c ++ (List.replicate (dataStart - headerLength) 0 ++
        (((ordered c).map (dataBlock 8)).flatten ++ (head c ++ preamble c)))) := by
  have hlength : (head c).length = headerLength := length_header ..
  have hheaders := put_headers 8 (ordered c) 6
    (fun position _ => put_header_eq (mapOffset c) (total (sizes c)) (mapLength c) position)
    (by rw [length_header]; decide) (length_data_section_eq c)
  rw [← head, hlength] at hheaders
  rw [hheaders, put_number_holding, wrap_zero, put_nat_holding, put_nat_holding]
  simp only [preamble, number, List.append_assoc]

/-- What stands in front of the entries of the types. -/
def front (c : Container) : List UInt8 :=
  head c ++ (List.replicate (dataStart - headerLength) 0 ++
    (((ordered c).map (dataBlock 8)).flatten ++
      (head c ++ (preamble c ++ countField 8 c.groups.length))))

theorem written_eq_front (c : Container) (types entries : List UInt8) :
    bytesOf (head c) ++ zeros (dataStart - headerLength) ++ dataBlocks 8 (ordered c) ++
      bytesOf (head c ++ List.replicate 6 0 ++ number 2 0 ++ number 8 mapPreamble ++
        number 8 (nameListOffset c) ++ countField 8 c.groups.length ++ types ++ entries ++
        names c) = bytesOf (front c ++ types ++ entries ++ names c) := by
  rw [zeros_eq, data_blocks_eq, bytes_of_append, bytes_of_append, bytes_of_append]
  simp only [front, preamble, List.append_assoc]

theorem encode_eq (c : Container) : encode c = do
    let types ← (c.groups.zip (groupStarts c.groups)).mapM fun (g, preceding) =>
      typeEntry c.groups.length g preceding
    return bytesOf (front c ++ types.flatten ++ (resourceBlocks c).flatten ++ names c) := by
  simp only [← written_eq_front]
  rfl

/-- A name offset that is never refused. -/
theorem name_offset_eq (r : Resource) (start : Nat) :
    Emission.nameOffset unnamed (fun _ => return) r start = pure (nameOffset r start) := by
  unfold Emission.nameOffset nameOffset
  split
  · rfl
  · rfl

/-- The entries with name offsets that were worked out before. -/
theorem map_resource_entry (resources : List Resource) (nameStarts dataStarts : List Nat) :
    (resources.zip (((resources.zip nameStarts).map fun (r, start) => nameOffset r start).zip
      dataStarts)).map (fun entry => resourceEntry entry.1 entry.2.1 entry.2.2) =
        (resources.zip (nameStarts.zip dataStarts)).map
          fun (r, nameStart, dataOffset) => resourceEntry r (nameOffset r nameStart) dataOffset := by
  induction resources generalizing nameStarts dataStarts with
  | nil => rfl
  | cons r rest ih =>
    cases nameStarts with
    | nil => rfl
    | cons nameStart nameStarts =>
      cases dataStarts with
      | nil => rfl
      | cons dataOffset dataStarts => simp [ih]

/-- What the buffer holds is what the encoder puts together. -/
theorem emit_eq_encode (c : Container) : (do return (← emit c).bytes) = encode c := by
  have hnameOffset : mapPreamble + (8 + typeEntryLength * c.groups.length +
      resourceEntryLength * (ordered c).length) = nameListOffset c := by
    simp only [nameListOffset, Nat.add_assoc]
  have hnames : nameListOffset c + ((ordered c).flatMap nameBlock).length = mapLength c := rfl
  have hdata : mapOffset c - dataStart = total (sizes c) := Nat.add_sub_cancel_left ..
  have hcount : ByteOrder.big.encode 8 (wrap 8 ((c.groups.length : Int) - 1)) =
    countField 8 c.groups.length := rfl
  have htypes := fold_counted (put_type_holding c.groups.length)
  have hresources := fold_append put_resource_holding
  rw [encode_eq]
  unfold emit
  rw [show c.resources.map (·.2) = ordered c from rfl]
  simp only [put_data_section, put_names, name_offset_eq, for_m_return, List.mapM_pure, bind_assoc,
    pure_bind, size_holding, length_data_section_eq, hnameOffset, hnames, hdata, put_map_start,
    put_number_holding, hcount, htypes, hresources, map_resource_entry, write_raw_holding,
    bytes_holding, front, bytesOf, List.append_assoc]
  rfl

end ResourceCompiler.Extended

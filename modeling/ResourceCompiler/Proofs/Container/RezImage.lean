import ResourceCompiler.Container.Rez
import ResourceCompiler.Proofs.Container.StandardImage

/-!
When a container can be written in the indexed format, and the bytes that are written then.
-/

namespace ResourceCompiler.Rez

open Layout

/-- The bytes that each resource takes in the data. -/
def sizes (c : Container) : List Nat := c.resources.map fun (_, r) => r.data.size

/-- Where the data starts. -/
def dataOffset (c : Container) : Nat := headerLength c.resources.length

def mapOffset (c : Container) : Nat := dataOffset c + total (sizes c)

def mapLength (c : Container) : Nat :=
  8 + typeEntryLength * c.groups.length + resourceEntryLength * c.resources.length

/-- The entries of the resources in the index. -/
def indexBlocks (c : Container) : List (List UInt8) :=
  (c.resources.zip (starts (dataOffset c) (sizes c))).map fun ((_, r), offset) =>
    indexEntry offset r.data.size

/-- Where a type's list of resources starts, counted from the map. -/
def listOffset (typeCount preceding : Nat) : Nat :=
  8 + typeEntryLength * typeCount + resourceEntryLength * preceding

def typeBlock (typeCount : Nat) (g : TypeGroup) (preceding : Nat) : List UInt8 :=
  MacRoman.encode g.code ++ big 4 (listOffset typeCount preceding) ++ big 4 g.resources.size

def typeBlocks (c : Container) : List (List UInt8) :=
  (c.groups.zip (groupStarts c.groups)).map fun (g, preceding) =>
    typeBlock c.groups.length g preceding

def resourceBlock (code : String) (r : Resource) (index : Nat) : List UInt8 :=
  big 4 index ++ MacRoman.encode code ++ big 2 (wrap 2 r.id.toInt) ++ nameField r.name

/-- The entries of the resources in the map. Their indices count from 1. -/
def resourceBlocks (c : Container) : List (List UInt8) :=
  (c.resources.zip (List.range' 1 c.resources.length)).map fun ((code, r), index) =>
    resourceBlock code r index

/-- The bytes of a container. -/
def image (c : Container) : List UInt8 :=
  signature ++ (little 4 version ++ (little 4 (dataOffset c) ++ ((indexBlocks c).flatten ++
    (indexEntry (mapOffset c) (mapLength c) ++ (Buffer.cStringBytes mapName 0 ++
      ((c.resources.map fun e => e.2.data.data.toList).flatten ++ (big 4 8 ++
        (big 4 c.groups.length ++ ((typeBlocks c).flatten ++ (resourceBlocks c).flatten)))))))))

/-- Every number fits the field that it is written to. -/
structure Fits (c : Container) : Prop where
  codes : ∀ g ∈ c.groups, (MacRoman.encode g.code).length = 4
  resourceCodes : ∀ e ∈ c.resources, (MacRoman.encode e.1).length = 4
  ids : ∀ e ∈ c.resources, SixteenBit e.2.id
  dataOffset_lt : dataOffset c < capacity 4
  resourceOffsets_lt : ∀ offset ∈ starts (dataOffset c) (sizes c), offset < capacity 4
  resourceLengths_lt : ∀ e ∈ c.resources, e.2.data.size < capacity 4
  mapOffset_lt : mapOffset c < capacity 4
  mapLength_lt : mapLength c < capacity 4
  typeCount_lt : c.groups.length < capacity 4
  listOffsets_lt : ∀ preceding ∈ groupStarts c.groups,
    listOffset c.groups.length preceding < capacity 4
  counts_lt : ∀ g ∈ c.groups, g.resources.size < capacity 4
  indices_lt : ∀ index ∈ List.range' 1 c.resources.length, index < capacity 4

/-! The checked parts -/

theorem resource_index_entry_eq_ok {r : Resource} {offset : Nat} {bytes : List UInt8} :
    resourceIndexEntry r offset = .ok bytes ↔
      (offset < capacity 4 ∧ r.data.size < capacity 4) ∧
        bytes = indexEntry offset r.data.size := by
  unfold resourceIndexEntry
  simp only [except_bind_eq_ok, fit_eq_ok, pure, Except.pure, Except.ok.injEq, exists_const,
    and_assoc, eq_comm (a := bytes)]

theorem type_entry_eq_ok {typeCount preceding : Nat} {g : TypeGroup} {bytes : List UInt8} :
    typeEntry typeCount g preceding = .ok bytes ↔
      ((MacRoman.encode g.code).length = 4 ∧ listOffset typeCount preceding < capacity 4 ∧
        g.resources.size < capacity 4) ∧ bytes = typeBlock typeCount g preceding := by
  unfold typeEntry
  simp only [except_bind_eq_ok, type_code_eq_ok, fit_eq_ok, pure, Except.pure, Except.ok.injEq,
    exists_const]
  constructor
  · rintro ⟨_, ⟨hc, rfl⟩, hl, hr, rfl⟩
    exact ⟨⟨hc, hl, hr⟩, rfl⟩
  · rintro ⟨⟨hc, hl, hr⟩, rfl⟩
    exact ⟨_, ⟨hc, rfl⟩, hl, hr, rfl⟩

theorem resource_entry_eq_ok {code : String} {r : Resource} {index : Nat} {bytes : List UInt8} :
    resourceEntry code r index = .ok bytes ↔
      (index < capacity 4 ∧ (MacRoman.encode code).length = 4 ∧ SixteenBit r.id) ∧
        bytes = resourceBlock code r index := by
  unfold resourceEntry
  simp only [except_bind_eq_ok, type_code_eq_ok, fit_eq_ok, fit_id_eq_ok, pure, Except.pure,
    Except.ok.injEq, exists_const]
  constructor
  · rintro ⟨hi, _, ⟨hc, rfl⟩, hid, rfl⟩
    exact ⟨⟨hi, hc, hid⟩, rfl⟩
  · rintro ⟨⟨hi, hc, hid⟩, rfl⟩
    exact ⟨hi, _, ⟨hc, rfl⟩, hid, rfl⟩

/-- The data of all resources, back to back behind what is written already. -/
theorem data_eq (written : List UInt8) (resources : List (String × Resource)) :
    resources.foldl (fun bytes (_, r) => bytes ++ r.data) (bytesOf written) =
      bytesOf (written ++ (resources.map fun e => e.2.data.data.toList).flatten) := by
  induction resources generalizing written with
  | nil => simp
  | cons e rest ih =>
    obtain ⟨code, r⟩ := e
    have hd : r.data = bytesOf r.data.data.toList := by simp [bytesOf]
    have hstep : bytesOf written ++ r.data = bytesOf (written ++ r.data.data.toList) := by
      conv_lhs => rw [hd, bytes_of_append]
    refine (congrArg (rest.foldl _) hstep).trans ((ih _).trans ?_)
    simp

/-- What the encoder puts together is the image. -/
theorem written_eq_image (c : Container) :
    c.resources.foldl (fun bytes (_, r) => bytes ++ r.data)
        (bytesOf (signature ++ little 4 version ++ little 4 (dataOffset c) ++
          (indexBlocks c).flatten ++ indexEntry (mapOffset c) (mapLength c) ++
          Buffer.cStringBytes mapName 0)) ++
      bytesOf (big 4 8 ++ big 4 c.groups.length ++ (typeBlocks c).flatten ++
        (resourceBlocks c).flatten) = bytesOf (image c) := by
  rw [data_eq, bytes_of_append]
  simp only [image, List.append_assoc]

/-! Lists that run along each other -/

theorem length_indices (c : Container) :
    (List.range' 1 c.resources.length).length = c.resources.length :=
  List.length_range'

theorem length_data_starts (c : Container) :
    (starts (dataOffset c) (sizes c)).length = c.resources.length := by
  simp [length_starts, sizes]

/-- A container is written exactly if its numbers fit, and then as its image. -/
theorem encode_eq_ok {c : Container} {bytes : ByteArray} :
    encode c = .ok bytes ↔ Fits c ∧ bytes = bytesOf (image c) := by
  have hindex := except_map_m_eq_ok
    (f := fun (x : (String × Resource) × Nat) => resourceIndexEntry x.1.2 x.2)
    (fun _ _ => resource_index_entry_eq_ok)
  have htypes := except_map_m_eq_ok
    (f := fun (x : TypeGroup × Nat) => typeEntry c.groups.length x.1 x.2)
    (fun _ _ => type_entry_eq_ok)
  have hresources := except_map_m_eq_ok
    (f := fun (x : (String × Resource) × Nat) => resourceEntry x.1.1 x.1.2 x.2)
    (fun _ _ => resource_entry_eq_ok)
  unfold encode
  simp only [except_bind_eq_ok, hindex, htypes, hresources, fit_eq_ok, pure, Except.pure,
    Except.ok.injEq, exists_const]
  constructor
  · rintro ⟨hd, _, ⟨hi, rfl⟩, hmo, hml, htc, _, ⟨ht, rfl⟩, _, ⟨hr, rfl⟩, rfl⟩
    refine ⟨⟨?_, ?_, ?_, hd, ?_, ?_, hmo, hml, htc, ?_, ?_, ?_⟩, written_eq_image c⟩
    · intro g hg
      obtain ⟨preceding, hm⟩ := mem_zip_left (Standard.length_group_starts c) hg
      exact (ht _ hm).1
    · intro e he
      obtain ⟨index, hm⟩ := mem_zip_left (length_indices c) he
      exact (hr _ hm).2.1
    · intro e he
      obtain ⟨index, hm⟩ := mem_zip_left (length_indices c) he
      exact (hr _ hm).2.2
    · intro offset ho
      obtain ⟨e, hm⟩ := mem_zip_right (length_data_starts c) ho
      exact (hi _ hm).1
    · intro e he
      obtain ⟨offset, hm⟩ := mem_zip_left (length_data_starts c) he
      exact (hi _ hm).2
    · intro preceding hp
      obtain ⟨g, hm⟩ := mem_zip_right (Standard.length_group_starts c) hp
      exact (ht _ hm).2.1
    · intro g hg
      obtain ⟨preceding, hm⟩ := mem_zip_left (Standard.length_group_starts c) hg
      exact (ht _ hm).2.2
    · intro index hn
      obtain ⟨e, hm⟩ := mem_zip_right (length_indices c) hn
      exact (hr _ hm).1
  · rintro ⟨h, rfl⟩
    refine ⟨h.dataOffset_lt, _, ⟨?_, rfl⟩, h.mapOffset_lt, h.mapLength_lt, h.typeCount_lt, _,
      ⟨?_, rfl⟩, _, ⟨?_, rfl⟩, written_eq_image c⟩
    · intro x hx
      obtain ⟨he, ho⟩ := List.of_mem_zip hx
      exact ⟨h.resourceOffsets_lt _ ho, h.resourceLengths_lt _ he⟩
    · intro x hx
      obtain ⟨hg, hp⟩ := List.of_mem_zip hx
      exact ⟨h.codes _ hg, h.listOffsets_lt _ hp, h.counts_lt _ hg⟩
    · intro x hx
      obtain ⟨he, hn⟩ := List.of_mem_zip hx
      exact ⟨h.indices_lt _ hn, h.resourceCodes _ he, h.ids _ he⟩

/-! Where the parts stand -/

/-- The little-endian number of so many bytes at a position. -/
def little? (file : List UInt8) (position width : Nat) : Option Nat :=
  (slice? file position width).map ByteOrder.little.decode

variable {c : Container}

@[simp] theorem length_little (width n : Nat) : (little width n).length = width :=
  ByteOrder.length_encode _ _ _

@[simp] theorem length_big (width n : Nat) : (big width n).length = width :=
  ByteOrder.length_encode _ _ _

@[simp] theorem length_index_entry (offset length : Nat) :
    (indexEntry offset length).length = 12 := by
  simp [indexEntry]

theorem length_index_block (c : Container) : ∀ b ∈ indexBlocks c, b.length = 12 := by
  intro b hb
  obtain ⟨_, _, rfl⟩ := List.mem_map.mp hb
  exact length_index_entry _ _

theorem length_index (c : Container) :
    (indexBlocks c).flatten.length = 12 * c.resources.length := by
  rw [length_flatten_of_equal (length_index_block c)]
  simp [indexBlocks, length_data_starts]

theorem length_map_name : (Buffer.cStringBytes mapName 0).length = 13 := by
  decide +kernel

theorem data_offset_eq (c : Container) : dataOffset c = 12 * c.resources.length + 37 := by
  rw [dataOffset, headerLength, length_map_name, indexEntryLength]
  omega

theorem length_data (c : Container) :
    (c.resources.map fun e => e.2.data.data.toList).flatten.length = total (sizes c) := by
  rw [length_flatten_eq_total, List.map_map]
  simp only [Function.comp_def, Array.length_toList, ByteArray.size_data, sizes]

theorem Fits.length_type_block (h : Fits c) : ∀ b ∈ typeBlocks c, b.length = 12 := by
  intro b hb
  obtain ⟨⟨g, preceding⟩, hm, rfl⟩ := List.mem_map.mp hb
  have hc := h.codes g (List.of_mem_zip hm).1
  simp [typeBlock, hc]

/-- The entry of the map in the index, behind those of the resources. -/
theorem map_entry_at (c : Container) : Holds (image c) (12 + 12 * c.resources.length)
    (indexEntry (mapOffset c) (mapLength c)) := by
  have hentry := (Holds.whole (image c)).right.right.right.right
  rw [length_little, length_little, length_index] at hentry
  exact hentry.left

/-- The map of a written file, behind the index and the data. -/
theorem map_at (c : Container) : Holds (image c) (mapOffset c)
    (big 4 8 ++ (big 4 c.groups.length ++ ((typeBlocks c).flatten ++
      (resourceBlocks c).flatten))) := by
  have hmap := (Holds.whole (image c)).right.right.right.right.right.right.right
  rw [length_little, length_little, length_index, length_index_entry, length_map_name,
    length_data] at hmap
  have he : mapOffset c =
      0 + signature.length + 4 + 4 + 12 * c.resources.length + 12 + 13 + total (sizes c) := by
    rw [mapOffset, data_offset_eq, signature]
    simp only [List.length_cons, List.length_nil]
    omega
  rw [he]
  exact hmap

end ResourceCompiler.Rez

namespace ResourceCompiler

theorem Holds.little {file : List UInt8} {position width n : Nat}
    (h : Holds file position (Rez.little width n)) (hn : n < capacity width) :
    Rez.little? file position width = some n := by
  have hs := h.slice
  rw [Rez.length_little] at hs
  rw [Rez.little?, hs, Option.map_some, Rez.little, ByteOrder.decode_encode, Nat.mod_eq_of_lt hn]

end ResourceCompiler

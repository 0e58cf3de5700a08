import ResourceCompiler.Proofs.Container.Catalogue
import ResourceCompiler.Proofs.Container.RezImage
import ResourceCompiler.Proofs.Container.StandardRoundTrip

/-!
A reader of the indexed format that knows nothing but the file, and what it finds in a file that
was written from a container. Each resource has an entry in the map and one in the index, and the
first leads to the second by a number.
-/

namespace ResourceCompiler.Rez

open Layout

/-! The reader -/

structure FoundHeader where
  length : Nat
  /-- Where the data of the resources stands, and how long it is. -/
  blocks : List (Nat × Nat)
  mapOffset : Nat
  mapLength : Nat

/-- A resource as its entry in the map and the block that the entry counts off show it. -/
structure FoundResource where
  code : List UInt8
  id : Int
  name : List UInt8
  data : List UInt8
  deriving DecidableEq

/-- An entry of the index. -/
def readBlock (file : List UInt8) (entry : Nat) : Option (Nat × Nat) := do
  let offset ← little? file entry 4
  let length ← little? file (entry + 4) 4
  return (offset, length)

/-- The index takes what the header has besides its first 12 bytes and the 13 of the map's name.
Its last entry is that of the map. -/
def readHeader (file : List UInt8) : Option FoundHeader := do
  let length ← little? file 8 4
  let entries ← (List.range ((length - 25) / 12)).mapM fun i => readBlock file (12 + 12 * i)
  let (mapOffset, mapLength) ← entries.getLast?
  return ⟨length, entries.dropLast, mapOffset, mapLength⟩

/-- The block of a number. Numbers count from 1. -/
def block? (blocks : List (Nat × Nat)) : Nat → Option (Nat × Nat)
  | 0 => none
  | index + 1 => blocks[index]?

def readResource (file : List UInt8) (blocks : List (Nat × Nat)) (entry : Nat) :
    Option FoundResource := do
  let index ← number? file entry 4
  let code ← slice? file (entry + 4) 4
  let id ← number? file (entry + 8) 2
  let name ← slice? file (entry + 10) 256
  let (offset, length) ← block? blocks index
  let data ← slice? file offset length
  return ⟨code, signedValue 2 id, name, data⟩

/-- The code of a type and its resources. -/
def readType (file : List UInt8) (header : FoundHeader) (entry : Nat) :
    Option (List UInt8 × List FoundResource) := do
  let code ← slice? file entry 4
  let list ← number? file (entry + 4) 4
  let count ← number? file (entry + 8) 4
  let resources ← (List.range count).mapM fun i =>
    readResource file header.blocks (header.mapOffset + list + 266 * i)
  return (code, resources)

def readTypes (file : List UInt8) (header : FoundHeader) :
    Option (List (List UInt8 × List FoundResource)) := do
  let types ← number? file header.mapOffset 4
  let count ← number? file (header.mapOffset + 4) 4
  (List.range count).mapM fun k => readType file header (header.mapOffset + types + 12 * k)

/-! Where the parts of a written file stand -/

variable {c : Container}

theorem length_name_field (name : String) : (nameField name).length = 256 := by
  simp only [nameField, Buffer.padded, nameLength, List.length_append, List.length_take,
    List.length_replicate]
  omega

theorem Fits.length_resource_block (h : Fits c) : ∀ b ∈ resourceBlocks c, b.length = 266 := by
  intro b hb
  obtain ⟨⟨⟨code, r⟩, index⟩, hm, rfl⟩ := List.mem_map.mp hb
  have hc := h.resourceCodes _ (List.of_mem_zip hm).1
  simp only [resourceBlock, List.length_append, length_big, hc, length_name_field]

theorem Fits.length_types (h : Fits c) : (typeBlocks c).flatten.length = 12 * c.groups.length := by
  rw [length_flatten_of_equal h.length_type_block, typeBlocks, List.length_map, List.length_zip,
    Standard.length_group_starts, Nat.min_self]

theorem Fits.length_resources (h : Fits c) :
    (resourceBlocks c).flatten.length = 266 * c.resources.length := by
  rw [length_flatten_of_equal h.length_resource_block, resourceBlocks, List.length_map,
    List.length_zip, length_indices, Nat.min_self]

/-- The parts of a written file and their places. -/
structure Laid (c : Container) (file : List UInt8) : Prop where
  lengthAt : Holds file 8 (little 4 (dataOffset c))
  indexAt : Holds file 12 (indexBlocks c).flatten
  mapEntryAt : Holds file (12 + 12 * c.resources.length) (indexEntry (mapOffset c) (mapLength c))
  mapNameAt : Holds file (dataOffset c - 13) (Buffer.cStringBytes mapName 0)
  dataAt : Holds file (dataOffset c) (c.resources.map fun e => e.2.data.data.toList).flatten
  typesOffsetAt : Holds file (mapOffset c) (big 4 8)
  typeCountAt : Holds file (mapOffset c + 4) (big 4 c.groups.length)
  typesAt : Holds file (mapOffset c + 8) (typeBlocks c).flatten
  resourcesAt : Holds file (mapOffset c + listOffset c.groups.length 0) (resourceBlocks c).flatten

theorem Fits.laid (h : Fits c) : Laid c (image c) := by
  have whole := Holds.whole (image c)
  have length := whole.right.right
  have index := length.right
  have mapEntry := index.right
  have mapName := mapEntry.right
  have data := mapName.right
  simp only [signature, List.length_cons, List.length_nil, length_little, length_index,
    length_index_entry, length_map_name, Nat.zero_add, Nat.add_assoc, Nat.reduceAdd]
    at length index mapEntry mapName data
  have hname : 12 + (12 * c.resources.length + 12) = dataOffset c - 13 := by
    rw [data_offset_eq]
    omega
  have hdata : 12 + (12 * c.resources.length + 25) = dataOffset c := by
    rw [data_offset_eq]
    omega
  rw [hname] at mapName
  rw [hdata] at data
  have map := map_at c
  have typeCount := map.right
  rw [length_big] at typeCount
  have types := typeCount.right
  rw [length_big] at types
  have resources := types.right
  rw [h.length_types] at resources
  refine ⟨length.left, index.left, mapEntry.left, mapName.left, data.left, map.left,
    typeCount.left, types.left, ?_⟩
  have he : mapOffset c + listOffset c.groups.length 0 =
      mapOffset c + 4 + 4 + 12 * c.groups.length := by
    simp only [listOffset, typeEntryLength]
    omega
  rw [he]
  exact resources

theorem Fits.length_image (h : Fits c) : (image c).length = mapOffset c + mapLength c := by
  simp only [image, List.length_append, signature, List.length_cons, List.length_nil,
    length_little, length_big, length_index, length_index_entry, length_map_name, length_data,
    h.length_types, h.length_resources, mapOffset, data_offset_eq, mapLength, typeEntryLength,
    resourceEntryLength]
  omega

/-! Reading the parts back -/

/-- Where the data of each resource stands, and how long it is. -/
def blocks (c : Container) : List (Nat × Nat) := (starts (dataOffset c) (sizes c)).zip (sizes c)

theorem length_blocks (c : Container) : (blocks c).length = c.resources.length := by
  simp [blocks, length_starts, sizes]

theorem block_get {i : Nat} {e : String × Resource} (he : c.resources[i]? = some e) :
    (blocks c)[i]? = some (dataOffset c + total ((sizes c).take i), e.2.data.size) ∧
      (indexBlocks c)[i]? =
        some (indexEntry (dataOffset c + total ((sizes c).take i)) e.2.data.size) := by
  have hi := (List.getElem?_eq_some_iff.mp he).1
  have hstart : (starts (dataOffset c) (sizes c))[i]? =
      some (dataOffset c + total ((sizes c).take i)) :=
    starts_get _ _ _ (by simpa [sizes] using hi)
  have hsize : (sizes c)[i]? = some e.2.data.size := by simp [sizes, he]
  refine ⟨List.getElem?_zip_eq_some.mpr ⟨hstart, hsize⟩, ?_⟩
  have hz : (c.resources.zip (starts (dataOffset c) (sizes c)))[i]? =
      some (e, dataOffset c + total ((sizes c).take i)) :=
    List.getElem?_zip_eq_some.mpr ⟨he, hstart⟩
  rw [indexBlocks, List.getElem?_map, hz, Option.map_some]

theorem read_block {file : List UInt8} {entry offset length : Nat}
    (h : Holds file entry (indexEntry offset length)) (ho : offset < capacity 4)
    (hl : length < capacity 4) : readBlock file entry = some (offset, length) := by
  have h0 := h.left.left.little ho
  have h4 := h.left.right.little hl
  rw [length_little] at h4
  simp only [readBlock, h0, h4, Option.bind_eq_bind, Option.bind_some, Option.pure_def]

/-- The entries of the index are read one after the other, that of the map last. -/
theorem read_index (h : Fits c) :
    (List.range (c.resources.length + 1)).mapM (fun i => readBlock (image c) (12 + 12 * i)) =
      some (blocks c ++ [(mapOffset c, mapLength c)]) := by
  have hlen : (blocks c ++ [(mapOffset c, mapLength c)]).length = c.resources.length + 1 := by
    rw [List.length_append, length_blocks, List.length_singleton]
  rw [← hlen]
  refine map_m_range fun i x hx => ?_
  rcases Nat.lt_or_ge i c.resources.length with hi | hi
  · have he : c.resources[i]? = some c.resources[i] := List.getElem?_eq_getElem hi
    obtain ⟨hblock, hentry⟩ := block_get he
    rw [List.getElem?_append_left (by rwa [length_blocks]), hblock, Option.some.injEq] at hx
    subst hx
    have hstart := List.mem_of_getElem? (starts_get (dataOffset c) (sizes c) i (by simpa [sizes]))
    exact read_block (h.laid.indexAt.equal_block (length_index_block c) hentry)
      (h.resourceOffsets_lt _ hstart) (h.resourceLengths_lt _ (List.mem_of_getElem? he))
  · rw [List.getElem?_append_right (by rwa [length_blocks]), length_blocks] at hx
    obtain ⟨hlast, hx⟩ := List.getElem?_eq_some_iff.mp hx
    have hi : i = c.resources.length := by
      rw [List.length_singleton] at hlast
      omega
    rw [List.getElem_singleton] at hx
    subst hx hi
    exact read_block h.laid.mapEntryAt h.mapOffset_lt h.mapLength_lt

theorem read_header (h : Fits c) :
    readHeader (image c) = some ⟨dataOffset c, blocks c, mapOffset c, mapLength c⟩ := by
  have hlength := h.laid.lengthAt.little h.dataOffset_lt
  have hcount : (dataOffset c - 25) / 12 = c.resources.length + 1 := by
    rw [data_offset_eq]
    omega
  simp only [readHeader, hlength, hcount, read_index h, List.getLast?_concat, List.dropLast_concat,
    Option.bind_eq_bind, Option.bind_some, Option.pure_def]

/-- A resource as a reader finds it. -/
def found (e : String × Resource) : FoundResource :=
  ⟨MacRoman.encode e.1, e.2.id.toInt, Buffer.padded 256 ((MacRoman.encode e.2.name).take 255),
    e.2.data.data.toList⟩

/-- Each entry of the map leads to what its resource was. -/
theorem read_resource (h : Fits c) {i : Nat} {f : FoundResource}
    (hf : (c.resources.map found)[i]? = some f) :
    readResource (image c) (blocks c)
      (mapOffset c + listOffset c.groups.length 0 + 266 * i) = some f := by
  rw [List.getElem?_map, Option.map_eq_some_iff] at hf
  obtain ⟨e, he, rfl⟩ := hf
  have hi := (List.getElem?_eq_some_iff.mp he).1
  have hm := List.mem_of_getElem? he
  have hn : (List.range' 1 c.resources.length)[i]? = some (i + 1) := by
    rw [List.getElem?_range' hi]
    simp [Nat.add_comm]
  have hb : (resourceBlocks c)[i]? = some (resourceBlock e.1 e.2 (i + 1)) := by
    have hz : (c.resources.zip (List.range' 1 c.resources.length))[i]? = some (e, i + 1) :=
      List.getElem?_zip_eq_some.mpr ⟨he, hn⟩
    rw [resourceBlocks, List.getElem?_map, hz, Option.map_some]
  have hentry := h.laid.resourcesAt.equal_block h.length_resource_block hb
  generalize mapOffset c + listOffset c.groups.length 0 + 266 * i = entry at hentry ⊢
  have hindex := hentry.left.left.left.number (h.indices_lt _ (List.mem_of_getElem? hn))
  have hcode := hentry.left.left.right.slice
  have hid := hentry.left.right.number (wrap_lt_capacity 2 e.2.id.toInt)
  have hname := hentry.right.slice
  simp only [List.length_append, length_big, h.resourceCodes e hm, length_name_field,
    Nat.reduceAdd] at hcode hid hname
  have hdata : Holds (image c) (dataOffset c + total ((sizes c).take i)) e.2.data.data.toList := by
    have hd := h.laid.dataAt.block (i := i) (by rw [List.getElem?_map, he, Option.map_some])
    simpa only [sizes, List.map_take, List.map_map, Function.comp_def, Array.length_toList,
      ByteArray.size_data] using hd
  have hbytes := hdata.slice
  rw [Array.length_toList, ByteArray.size_data] at hbytes
  have hsigned : signedValue 2 (wrap 2 e.2.id.toInt) = e.2.id.toInt := by
    obtain ⟨low, high⟩ := h.ids e hm
    exact signed_value_wrap (by simp only [capacity]; omega) (by simp only [capacity]; omega)
  simp only [readResource, hindex, hcode, hid, hname, block?, (block_get he).1, hbytes, hsigned,
    found, nameField, nameLength, Nat.reduceSub, Option.bind_eq_bind, Option.bind_some,
    Option.pure_def]

/-- A type's entry leads to the resources of the type. -/
theorem read_type (h : Fits c) {header : FoundHeader} (hb : header.blocks = blocks c)
    (hm : header.mapOffset = mapOffset c) {k : Nat} {t : List UInt8 × List FoundResource}
    (ht : (catalogue c (c.resources.map found))[k]? = some t) :
    readType (image c) header (mapOffset c + 8 + 12 * k) = some t := by
  obtain ⟨g, preceding, hg, hz, hroom, rfl⟩ := catalogue_get (by simp) ht
  have hgm := List.mem_of_getElem? hg
  have hblock : (typeBlocks c)[k]? = some (typeBlock c.groups.length g preceding) := by
    rw [typeBlocks, List.getElem?_map, hz, Option.map_some]
  have hentry := h.laid.typesAt.equal_block h.length_type_block hblock
  have hplace : mapOffset c + listOffset c.groups.length preceding =
      mapOffset c + listOffset c.groups.length 0 + 266 * preceding := by
    simp only [listOffset, resourceEntryLength]
    omega
  have hcode := hentry.left.left.slice
  have hlist := hentry.left.right.number
    (h.listOffsets_lt _ (List.of_mem_zip (List.mem_of_getElem? hz)).2)
  have hcount := hentry.right.number (h.counts_lt g hgm)
  simp only [List.length_append, length_big, h.codes g hgm, Nat.reduceAdd] at hcode hlist hcount
  have hread := read_run (fun i f hf => read_resource h (i := i) (f := f) hf) hroom
  simp only [readType, hb, hm, hcode, hlist, hcount, hplace, hread, Option.bind_eq_bind,
    Option.bind_some, Option.pure_def]

theorem read_types (h : Fits c) {header : FoundHeader} (hb : header.blocks = blocks c)
    (hm : header.mapOffset = mapOffset c) :
    readTypes (image c) header = some (catalogue c (c.resources.map found)) := by
  have htypes := h.laid.typesOffsetAt.number (by decide)
  have hcount := h.laid.typeCountAt.number h.typeCount_lt
  have hread : (List.range (catalogue c (c.resources.map found)).length).mapM
      (fun k => readType (image c) header (mapOffset c + 8 + 12 * k)) =
        some (catalogue c (c.resources.map found)) :=
    map_m_range fun k t ht => read_type h hb hm ht
  rw [length_catalogue] at hread
  simp only [readTypes, hm, htypes, hcount, hread, Option.bind_eq_bind, Option.bind_some]

/-- A file gives back the resources that it was written from: the types in order with the bytes of
their codes, and under each its resources in order, each with the code of its type, its id, its name
cut to 255 bytes and filled up with zeros to 256, and its data. The header ends with the name of the
map, the data follows it back to back up to the map, and the file ends where the map does. -/
theorem rez_round_trip (added : List (String × Resource)) (bytes : ByteArray)
    (h : encode (.ofResources added) = .ok bytes) :
    ∃ header, readHeader bytes.data.toList = some header ∧
      readTypes bytes.data.toList header = some ((codesOf added).map fun code =>
        (MacRoman.encode code, (resourcesOf added code).map fun r =>
          ⟨MacRoman.encode code, r.id.toInt,
            Buffer.padded 256 ((MacRoman.encode r.name).take 255), r.data.data.toList⟩)) ∧
      slice? bytes.data.toList (header.length - 13) 13 =
        some (MacRoman.encode "resource.map" ++ [0]) ∧
      Standard.Tiles header.length header.mapOffset header.blocks ∧
      bytes.size = header.mapOffset + header.mapLength := by
  obtain ⟨hfits, rfl⟩ := encode_eq_ok.mp h
  have hname := hfits.laid.mapNameAt.slice
  rw [length_map_name] at hname
  refine ⟨_, read_header hfits, ?_, hname, Standard.tiles_starts _ _, hfits.length_image⟩
  exact (read_types hfits rfl rfl).trans (congrArg some (catalogue_of_resources added found))

/-- Two types, the first of them with two resources that are not added one behind the other. -/
theorem rez_round_trip_two_types :
    let added : List (String × Resource) :=
      [("AAAA", ⟨1, "One", bytesOf [1, 2, 3]⟩), ("BBBB", ⟨-2, "", bytesOf [4]⟩),
        ("AAAA", ⟨3, "", bytesOf []⟩)]
    ∃ bytes header, encode (.ofResources added) = .ok bytes ∧
      readHeader bytes.data.toList = some header ∧
      readTypes bytes.data.toList header = some
        [([65, 65, 65, 65],
            [⟨[65, 65, 65, 65], 1, [79, 110, 101] ++ List.replicate 253 0, [1, 2, 3]⟩,
              ⟨[65, 65, 65, 65], 3, List.replicate 256 0, []⟩]),
          ([66, 66, 66, 66], [⟨[66, 66, 66, 66], -2, List.replicate 256 0, [4]⟩])] := by
  intro added
  have hok : (encode (.ofResources added)).isOk = true := by decide +kernel
  cases hb : encode (.ofResources added) with
  | error e => simp [hb, Except.isOk, Except.toBool] at hok
  | ok bytes =>
    obtain ⟨header, hh, ht, -⟩ := rez_round_trip added bytes hb
    refine ⟨bytes, header, rfl, hh, ht.trans ?_⟩
    decide +kernel

end ResourceCompiler.Rez

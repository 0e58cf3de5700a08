import ResourceCompiler.Proofs.Container.Catalogue
import ResourceCompiler.Proofs.Container.ExtendedImage
import ResourceCompiler.Proofs.Container.StandardNames

/-!
A reader of the 64-bit format that knows nothing but the file, and what it finds in a file that was
written from a container. Nothing but a type code stands in the way of writing.
-/

namespace ResourceCompiler.Extended

open Layout
open Standard (ordered names nameStart storedName length_count_field)

/-! The reader -/

structure FoundHeader where
  magic : Nat
  dataOffset : Nat
  mapOffset : Nat
  dataLength : Nat
  mapLength : Nat

/-- A resource as its entry, its data block and its place in the list of names show it. -/
structure FoundResource where
  id : Int
  name : Option (List UInt8)
  data : List UInt8
  deriving DecidableEq

def readHeader (file : List UInt8) : Option FoundHeader := do
  let magic ← number? file 0 8
  let dataOffset ← number? file 8 8
  let mapOffset ← number? file 16 8
  let dataLength ← number? file 24 8
  let mapLength ← number? file 32 8
  return ⟨magic, dataOffset, mapOffset, dataLength, mapLength⟩

/-- The name at an offset in the list of names. The largest offset stands for no name. -/
def readName (file : List UInt8) (nameList offset : Nat) : Option (Option (List UInt8)) :=
  if offset = 0xFFFFFFFFFFFFFFFF then some none
  else do
    let length ← number? file (nameList + offset) 1
    let name ← slice? file (nameList + offset + 1) length
    return some name

def readResource (file : List UInt8) (dataStart nameList entry : Nat) : Option FoundResource := do
  let id ← number? file entry 8
  let nameOffset ← number? file (entry + 8) 8
  let dataOffset ← number? file (entry + 17) 8
  let name ← readName file nameList nameOffset
  let length ← number? file (dataStart + dataOffset) 8
  let data ← slice? file (dataStart + dataOffset + 8) length
  return ⟨signedValue 8 id, name, data⟩

/-- The code of a type and its resources. -/
def readType (file : List UInt8) (dataStart typeList nameList index : Nat) :
    Option (List UInt8 × List FoundResource) := do
  let code ← slice? file (typeList + 8 + 20 * index) 4
  let last ← number? file (typeList + 8 + 20 * index + 4) 8
  let list ← number? file (typeList + 8 + 20 * index + 12) 8
  let resources ← (List.range (last + 1)).mapM fun i =>
    readResource file dataStart nameList (typeList + list + 29 * i)
  return (code, resources)

/-- The types of a file. Their count is stored less one, so a file without types holds the largest
number there. -/
def readTypes (file : List UInt8) (header : FoundHeader) :
    Option (List (List UInt8 × List FoundResource)) := do
  let types ← number? file (header.mapOffset + 48) 8
  let names ← number? file (header.mapOffset + 56) 8
  let last ← number? file (header.mapOffset + types) 8
  (List.range ((last + 1) % capacity 8)).mapM
    (readType file header.dataOffset (header.mapOffset + types) (header.mapOffset + names))

/-! Where the parts of a written file stand -/

variable {c : Container}

theorem length_resource_block (c : Container) : ∀ b ∈ resourceBlocks c, b.length = 29 := by
  intro b hb
  obtain ⟨⟨r, nameStart, dataOffset⟩, _, rfl⟩ := List.mem_map.mp hb
  simp [resourceEntry]

theorem length_resource_fields (c : Container) :
    ((nameStarts (ordered c)).zip (starts 0 (sizes c))).length = (ordered c).length := by
  simp [nameStarts, length_starts, sizes]

theorem length_resources (c : Container) :
    (resourceBlocks c).flatten.length = 29 * (ordered c).length := by
  rw [length_flatten_of_equal (length_resource_block c), resourceBlocks, List.length_map,
    List.length_zip, length_resource_fields, Nat.min_self]

/-- Where a type's list of resources starts, counted from the list of types. -/
def listOffset (typeCount preceding : Nat) : Nat :=
  8 + typeEntryLength * typeCount + resourceEntryLength * preceding

/-- A container that can be written, as a file that is small enough for its own offsets. -/
structure Fits (c : Container) : Prop where
  codes : ∀ g ∈ c.groups, (MacRoman.encode g.code).length = 4
  size_lt : (image c).length < capacity 8

/-- The parts of a written file and their places. -/
structure Laid (c : Container) (file : List UInt8) : Prop where
  headAt : Holds file 0 (head c)
  dataAt : Holds file dataStart ((ordered c).map (dataBlock 8)).flatten
  copyAt : Holds file (mapOffset c) (head c)
  preambleAt : Holds file (mapOffset c + 40) (preamble c)
  typeCountAt : Holds file (mapOffset c + 64) (countField 8 c.groups.length)
  typesAt : Holds file (mapOffset c + 64 + 8) (typeBlocks c).flatten
  resourcesAt : Holds file (mapOffset c + 64 + listOffset c.groups.length 0)
    (resourceBlocks c).flatten
  namesAt : Holds file (mapOffset c + nameListOffset c) (names c)

theorem Fits.laid (h : Fits c) : Laid c (image c) := by
  have whole := Holds.whole (image c)
  have data := whole.right.right
  rw [length_head, List.length_replicate] at data
  have copy := map_at c
  have preamble := copy.right
  rw [length_head] at preamble
  have typeCount := preamble.right
  rw [length_preamble] at typeCount
  have types := typeCount.right
  rw [length_count_field] at types
  have resources := types.right
  rw [length_types h.codes] at resources
  have names := resources.right
  rw [length_resources] at names
  refine ⟨whole.left, data.left, copy.left, preamble.left, typeCount.left, types.left, ?_, ?_⟩
  · have he : mapOffset c + 64 + listOffset c.groups.length 0 =
        mapOffset c + 40 + 24 + 8 + 20 * c.groups.length := by
      simp only [listOffset, typeEntryLength]
      omega
    rw [he]
    exact resources.left
  · have he : mapOffset c + nameListOffset c =
        mapOffset c + 40 + 24 + 8 + 20 * c.groups.length + 29 * (ordered c).length := by
      simp only [nameListOffset, mapPreamble, typeEntryLength, resourceEntryLength]
      omega
    rw [he]
    exact names

theorem Fits.length_image (h : Fits c) : (image c).length = mapOffset c + mapLength c := by
  simp only [image, List.length_append, length_head, List.length_replicate, length_data,
    length_preamble, length_count_field, length_types h.codes, length_resources, mapOffset,
    mapLength, nameListOffset, mapPreamble, dataStart, headerLength, typeEntryLength,
    resourceEntryLength]
  omega

/-- Every position in the map fits a field. -/
theorem Fits.map_end_lt (h : Fits c) : mapOffset c + mapLength c < capacity 8 :=
  h.length_image ▸ h.size_lt

/-! Reading the parts back -/

theorem read_header (h : Fits c) {file : List UInt8} (hl : Laid c file) :
    readHeader file = some ⟨1, dataStart, mapOffset c, total (sizes c), mapLength c⟩ := by
  have hend := h.map_end_lt
  have hdata : total (sizes c) ≤ mapOffset c := Nat.le_add_left ..
  have hh : Holds file 0 (number 8 magic ++ number 8 dataStart ++ number 8 (mapOffset c) ++
    number 8 (total (sizes c)) ++ number 8 (mapLength c)) := hl.headAt
  have h0 := hh.left.left.left.left.number (n := magic) (by decide)
  have h8 := hh.left.left.left.right.number (n := dataStart) (by decide)
  have h16 := hh.left.left.right.number (n := mapOffset c) (by omega)
  have h24 := hh.left.right.number (n := total (sizes c)) (by omega)
  have h32 := hh.right.number (n := mapLength c) (by omega)
  simp only [List.length_append, length_number, Nat.zero_add] at h8 h16 h24 h32
  simp only [readHeader, h0, h8, h16, h24, h32, Option.bind_eq_bind, Option.bind_some,
    Option.pure_def, magic]

/-- A resource as a reader finds it. -/
def found (r : Resource) : FoundResource :=
  ⟨r.id.toInt, if r.name.isEmpty then none else some (storedName r), r.data.data.toList⟩

/-- The name of a resource is found where its entry says. -/
theorem read_name (h : Fits c) {i : Nat} {r : Resource} (hr : (ordered c)[i]? = some r) :
    readName (image c) (mapOffset c + nameListOffset c) (nameOffset r (nameStart c i)) =
      some (if r.name.isEmpty then none else some (storedName r)) := by
  unfold nameOffset
  by_cases hname : r.name.isEmpty = true
  · simp [hname, readName, unnamed]
  · have hb := Standard.name_block_at h.laid.namesAt hr
    rw [Standard.name_block_eq (by simpa using hname)] at hb
    have hroom := hb.within
    simp only [List.length_append, ByteOrder.length_encode] at hroom
    -- The name takes a byte behind its offset, so the offset is not the largest one.
    have hstart : nameStart c i ≠ 0xFFFFFFFFFFFFFFFF := by
      have hsize := h.size_lt
      have hlast : 0xFFFFFFFFFFFFFFFF + 1 = capacity 8 := by decide
      omega
    have hlength := hb.left.number (Standard.stored_name_lt r)
    have hbytes := hb.right.slice
    rw [ByteOrder.length_encode] at hbytes
    simp only [hname, Bool.false_eq_true, if_false, readName, if_neg hstart, hlength, hbytes,
      Option.bind_eq_bind, Option.bind_some, Option.pure_def]

/-- Each entry leads to what its resource was. -/
theorem read_resource (h : Fits c) {i : Nat} {f : FoundResource}
    (hf : ((ordered c).map found)[i]? = some f) :
    readResource (image c) dataStart (mapOffset c + nameListOffset c)
      (mapOffset c + 64 + listOffset c.groups.length 0 + 29 * i) = some f := by
  have hl := h.laid
  rw [List.getElem?_map, Option.map_eq_some_iff] at hf
  obtain ⟨r, hr, rfl⟩ := hf
  have hi := (List.getElem?_eq_some_iff.mp hr).1
  have hd : (starts 0 (sizes c))[i]? = some (total ((sizes c).take i)) := by
    rw [starts_get _ _ _ (by simpa [sizes] using hi), Nat.zero_add]
  have hn : (nameStarts (ordered c))[i]? = some (nameStart c i) := Standard.name_start_get hr
  have hb : (resourceBlocks c)[i]? =
      some (resourceEntry r (nameOffset r (nameStart c i)) (total ((sizes c).take i))) := by
    have hz : ((ordered c).zip ((nameStarts (ordered c)).zip (starts 0 (sizes c))))[i]? =
        some (r, nameStart c i, total ((sizes c).take i)) :=
      List.getElem?_zip_eq_some.mpr ⟨hr, List.getElem?_zip_eq_some.mpr ⟨hn, hd⟩⟩
    rw [resourceBlocks, List.getElem?_map, hz, Option.map_some]
  have hdata := hl.dataAt.data_block hr hd
  have hroom := hdata.within
  rw [length_data_block] at hroom
  have hsize := h.size_lt
  have he := hl.resourcesAt.equal_block (length_resource_block c) hb
  generalize mapOffset c + 64 + listOffset c.groups.length 0 + 29 * i = entry at he ⊢
  have hid := he.left.left.left.left.number (wrap_lt_capacity 8 r.id.toInt)
  have hnameOffset : nameOffset r (nameStart c i) < capacity 8 := by
    have hstart := Standard.name_start_le c i
    have hnames := hl.namesAt.within
    have hunnamed : unnamed < capacity 8 := by decide
    unfold nameOffset
    split <;> omega
  have hname := he.left.left.left.right.number hnameOffset
  have hoffset := he.left.right.number (n := total ((sizes c).take i)) (by omega)
  have hlength := hdata.left.number (n := r.data.size) (by omega)
  have hbytes := hdata.right.slice
  simp only [List.length_append, length_number, ByteOrder.length_encode, Array.length_toList,
    ByteArray.size_data] at hname hoffset hbytes
  have hsigned : signedValue 8 (wrap 8 r.id.toInt) = r.id.toInt := by
    have hlow := Int64.le_toInt r.id
    have hhigh := Int64.toInt_lt r.id
    exact signed_value_wrap (by simp only [capacity]; omega) (by simp only [capacity]; omega)
  simp only [readResource, hid, hname, read_name h hr, hoffset, hlength, hbytes, hsigned, found,
    Option.bind_eq_bind, Option.bind_some, Option.pure_def]

/-- A type's entry leads to the resources of the type. -/
theorem read_type (h : Fits c) (hfull : ∀ g ∈ c.groups, 0 < g.resources.size) {k : Nat}
    {t : List UInt8 × List FoundResource}
    (ht : (catalogue c ((ordered c).map found))[k]? = some t) :
    readType (image c) dataStart (mapOffset c + 64) (mapOffset c + nameListOffset c) k =
      some t := by
  have hl := h.laid
  obtain ⟨g, preceding, hg, hz, hroom, rfl⟩ := catalogue_get (by simp [ordered]) ht
  have hm := List.mem_of_getElem? hg
  have hb : (typeBlocks c)[k]? = some (typeBlock c.groups.length g preceding) := by
    rw [typeBlocks, List.getElem?_map, hz, Option.map_some]
  have he := hl.typesAt.equal_block (length_type_block h.codes) hb
  have hplace : mapOffset c + 64 +
      (8 + typeEntryLength * c.groups.length + resourceEntryLength * preceding) =
        mapOffset c + 64 + listOffset c.groups.length 0 + 29 * preceding := by
    simp only [listOffset, resourceEntryLength]
    omega
  -- The entries lie in the file, so neither their place nor their count is too large.
  have hin := hl.resourcesAt.within
  rw [length_resources] at hin
  have hsize := h.size_lt
  rw [List.length_map] at hroom
  have hcode := he.left.left.slice
  have hlast := he.left.right.number (wrap_lt_capacity 8 _)
  have hlist := he.right.number (by omega)
  have hcount := wrap_pred_succ (hfull g hm) (by omega : g.resources.size < capacity 8)
  simp only [List.length_append, length_count_field, h.codes g hm] at hcode hlast hlist
  have hread := read_run (fun i f hf => read_resource h (i := i) (f := f) hf)
    (by rwa [List.length_map])
  simp only [readType, hcode, hlast, hlist, hcount, hplace, hread, Option.bind_eq_bind,
    Option.bind_some, Option.pure_def]

theorem read_types (h : Fits c) (hfull : ∀ g ∈ c.groups, 0 < g.resources.size)
    {header : FoundHeader} (hd : header.dataOffset = dataStart)
    (hm : header.mapOffset = mapOffset c) :
    readTypes (image c) header = some (catalogue c ((ordered c).map found)) := by
  have hl := h.laid
  have hin := hl.typesAt.within
  rw [length_types h.codes] at hin
  have hsize := h.size_lt
  have hend := h.map_end_lt
  have hnames : nameListOffset c ≤ mapLength c := Nat.le_add_right ..
  have hp : Holds (image c) (mapOffset c + 40) (List.replicate 6 0 ++ number 2 0 ++
    number 8 mapPreamble ++ number 8 (nameListOffset c)) := hl.preambleAt
  have h48 := hp.left.right.number (n := mapPreamble) (by decide)
  have h56 := hp.right.number (n := nameListOffset c) (by omega)
  have hlast := hl.typeCountAt.number (wrap_lt_capacity 8 _)
  have hcount : (wrap 8 ((c.groups.length : Int) - 1) + 1) % capacity 8 = c.groups.length :=
    wrap_pred (by omega)
  have hread : (List.range (catalogue c ((ordered c).map found)).length).mapM
      (readType (image c) dataStart (mapOffset c + 64) (mapOffset c + nameListOffset c)) =
        some (catalogue c ((ordered c).map found)) :=
    map_m_range fun k t ht => read_type h hfull ht
  rw [length_catalogue] at hread
  simp only [List.length_append, List.length_replicate, length_number, mapPreamble,
    Nat.add_assoc, Nat.reduceAdd] at h48 h56 hlast hread
  simp only [readTypes, hd, hm, h48, h56, hlast, hcount, hread, Option.bind_eq_bind,
    Option.bind_some]

theorem total_sizes (added : List (String × Resource)) :
    total (sizes (.ofResources added)) = total (added.map fun e => 8 + e.2.data.size) := by
  rw [sizes, ordered, List.map_map]
  exact total_of_resources added fun e => 8 + e.2.data.size

/-- A container can be written exactly if the code of each type takes four bytes. A file, which
cannot be larger than its own numbers, then gives back the resources that it was written from: the
types in order with the bytes of their codes, and under each its resources in order with their ids,
their data and their names. A name is cut to 255 bytes, and exactly a resource without one has the
largest name offset.
The map repeats the header, and the file ends where the map does. The data length in the header is
that of all data blocks, which stand in front of the map. -/
theorem extended_round_trip (added : List (String × Resource)) :
    ((∃ bytes, encode (.ofResources added) = .ok bytes) ↔
      ∀ e ∈ added, (MacRoman.encode e.1).length = 4) ∧
    ∀ bytes, encode (.ofResources added) = .ok bytes → bytes.size < capacity 8 →
      ∃ header, readHeader bytes.data.toList = some header ∧
        readTypes bytes.data.toList header = some ((codesOf added).map fun code =>
          (MacRoman.encode code, (resourcesOf added code).map fun r =>
            ⟨r.id.toInt, if r.name.isEmpty then none else some ((MacRoman.encode r.name).take 255),
              r.data.data.toList⟩)) ∧
        header.magic = 1 ∧
        slice? bytes.data.toList header.mapOffset 40 = slice? bytes.data.toList 0 40 ∧
        bytes.size = header.mapOffset + header.mapLength ∧
        header.dataLength = total (added.map fun e => 8 + e.2.data.size) ∧
        header.mapOffset = header.dataOffset + header.dataLength := by
  refine ⟨?_, ?_⟩
  · simp only [encode_eq_ok, exists_and_left, exists_eq, and_true]
    exact Container.forall_codes (p := fun code => (MacRoman.encode code).length = 4) added
  · intro bytes h hsize
    obtain ⟨hcodes, rfl⟩ := encode_eq_ok.mp h
    have hfits : Fits (.ofResources added) := ⟨hcodes, hsize⟩
    have hl := hfits.laid
    have hcopy := hl.copyAt.slice
    have hhead := hl.headAt.slice
    rw [length_head] at hcopy hhead
    have hfound : catalogue (.ofResources added) ((ordered (.ofResources added)).map found) =
        (codesOf added).map fun code =>
          (MacRoman.encode code, (resourcesOf added code).map found) := by
      rw [ordered, List.map_map]
      exact catalogue_of_resources added fun entry => found entry.2
    refine ⟨_, read_header hfits hl, ?_, rfl, hcopy.trans hhead.symm, hfits.length_image,
      total_sizes added, rfl⟩
    exact (read_types hfits (Container.groups_nonempty added) rfl rfl).trans (congrArg some hfound)

/-- Two types, the first of them with two resources that are not added one behind the other and one
of which has no name. -/
theorem extended_round_trip_two_types :
    let added : List (String × Resource) :=
      [("AAAA", ⟨1, "One", bytesOf [1, 2, 3]⟩), ("BBBB", ⟨-2, "", bytesOf [4]⟩),
        ("AAAA", ⟨3, "", bytesOf []⟩)]
    ∃ bytes header, encode (.ofResources added) = .ok bytes ∧ bytes.size < capacity 8 ∧
      readHeader bytes.data.toList = some header ∧
      readTypes bytes.data.toList header = some
        [([65, 65, 65, 65], [⟨1, some [79, 110, 101], [1, 2, 3]⟩, ⟨3, none, []⟩]),
          ([66, 66, 66, 66], [⟨-2, none, [4]⟩])] := by
  intro added
  obtain ⟨hwritten, hback⟩ := extended_round_trip added
  obtain ⟨bytes, hb⟩ := hwritten.mpr (by decide +kernel)
  have hsize : bytes.size < capacity 8 := by
    rw [(encode_eq_ok.mp hb).2]
    change (image (.ofResources added)).length < capacity 8
    decide +kernel
  obtain ⟨header, hh, ht, -⟩ := hback bytes hb hsize
  refine ⟨bytes, header, hb, hsize, hh, ht.trans ?_⟩
  decide +kernel

end ResourceCompiler.Extended

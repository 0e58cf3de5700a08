import ResourceCompiler.Proofs.Container.Catalogue

/-!
A reader of the classic format that knows nothing but the file, and what it finds in a file that
was written from a container.
-/

namespace ResourceCompiler.Standard

open Layout

/-! The reader -/

structure FoundHeader where
  dataOffset : Nat
  mapOffset : Nat
  dataLength : Nat
  mapLength : Nat

/-- A resource as its entry and its data block show it. -/
structure FoundResource where
  id : Int
  nameOffset : Nat
  dataOffset : Nat
  data : List UInt8

structure FoundType where
  code : List UInt8
  resources : List FoundResource

def readHeader (file : List UInt8) : Option FoundHeader := do
  let dataOffset ← number? file 0 4
  let mapOffset ← number? file 4 4
  let dataLength ← number? file 8 4
  let mapLength ← number? file 12 4
  return ⟨dataOffset, mapOffset, dataLength, mapLength⟩

def readResource (file : List UInt8) (dataStart entry : Nat) : Option FoundResource := do
  let id ← number? file entry 2
  let nameOffset ← number? file (entry + 2) 2
  let dataOffset ← number? file (entry + 5) 3
  let length ← number? file (dataStart + dataOffset) 4
  let data ← slice? file (dataStart + dataOffset + 4) length
  return ⟨signedValue 2 id, nameOffset, dataOffset, data⟩

def readType (file : List UInt8) (dataStart typeList index : Nat) : Option FoundType := do
  let code ← slice? file (typeList + 2 + 8 * index) 4
  let last ← number? file (typeList + 2 + 8 * index + 4) 2
  let list ← number? file (typeList + 2 + 8 * index + 6) 2
  let resources ← (List.range (last + 1)).mapM fun i =>
    readResource file dataStart (typeList + list + 20 * i)
  return ⟨code, resources⟩

/-- The types of a file. Their count is stored less one, so a file without types holds the largest
number there. -/
def readTypes (file : List UInt8) (header : FoundHeader) : Option (List FoundType) := do
  let last ← number? file (header.mapOffset + 28) 2
  (List.range ((last + 1) % capacity 2)).mapM
    (readType file header.dataOffset (header.mapOffset + 28))

/-- Blocks, given by start and length, fill the room from `first` up to `last` one by one. -/
def Tiles (first last : Nat) : List (Nat × Nat) → Prop
  | [] => first = last
  | (start, length) :: rest => start = first ∧ Tiles (first + length) last rest

/-! Where the parts of a written file stand -/

variable {c : Container}

@[simp] theorem length_number (width n : Nat) : (number width n).length = width :=
  ByteOrder.length_encode _ _ _

@[simp] theorem length_count_field (width count : Nat) :
    (countField width count).length = width :=
  ByteOrder.length_encode _ _ _

@[simp] theorem length_head (c : Container) : (head c).length = 16 := by
  simp [head, header]

@[simp] theorem length_preamble (c : Container) : (preamble c).length = 12 := by
  simp [preamble]

theorem length_data (c : Container) :
    (((ordered c).map (dataBlock 4)).flatten).length = total (sizes c) := by
  rw [length_flatten_eq_total, List.map_map]
  simp only [Function.comp_def, length_data_block, sizes]

theorem Fits.length_type_block (h : Fits c) : ∀ b ∈ typeBlocks c, b.length = 8 := by
  intro b hb
  obtain ⟨⟨g, preceding⟩, hm, rfl⟩ := List.mem_map.mp hb
  have hc := h.codes g (List.of_mem_zip hm).1
  simp [typeBlock, hc]

theorem length_resource_block (c : Container) : ∀ b ∈ resourceBlocks c, b.length = 20 := by
  intro b hb
  obtain ⟨⟨r, nameOffset, dataOffset⟩, _, rfl⟩ := List.mem_map.mp hb
  simp [resourceBlock]

theorem Fits.length_types (h : Fits c) :
    (typeBlocks c).flatten.length = 8 * c.groups.length := by
  rw [length_flatten_of_equal h.length_type_block]
  simp [typeBlocks, length_group_starts]

theorem length_resources (c : Container) :
    (resourceBlocks c).flatten.length = 20 * (ordered c).length := by
  rw [length_flatten_of_equal (length_resource_block c)]
  rw [resourceBlocks, List.length_map, List.length_zip, length_resource_fields, Nat.min_self]

/-- The parts of a written file and their places. -/
structure Laid (c : Container) (file : List UInt8) : Prop where
  headAt : Holds file 0 (head c)
  gapAt : Holds file 16 (List.replicate (dataStart - 16) 0)
  dataAt : Holds file dataStart ((ordered c).map (dataBlock 4)).flatten
  copyAt : Holds file (mapOffset c) (head c)
  preambleAt : Holds file (mapOffset c + 16) (preamble c)
  typeCountAt : Holds file (mapOffset c + 28) (countField 2 c.groups.length)
  typesAt : Holds file (mapOffset c + 28 + 2) (typeBlocks c).flatten
  resourcesAt : Holds file (mapOffset c + 28 + listOffset c.groups.length 0)
    (resourceBlocks c).flatten
  namesAt : Holds file (mapOffset c + nameListOffset c) (names c)

theorem Fits.laid (h : Fits c) : Laid c (image c) := by
  have whole := Holds.whole (image c)
  have gap := whole.right
  rw [length_head] at gap
  have data := gap.right
  rw [List.length_replicate] at data
  have copy := data.right
  rw [length_data] at copy
  have preamble := copy.right
  rw [length_head] at preamble
  have typeCount := preamble.right
  rw [length_preamble] at typeCount
  have types := typeCount.right
  rw [length_count_field] at types
  have resources := types.right
  rw [h.length_types] at resources
  have names := resources.right
  rw [length_resources] at names
  refine ⟨whole.left, gap.left, data.left, copy.left, preamble.left, typeCount.left, types.left,
    ?_, ?_⟩
  · have he : mapOffset c + 28 + listOffset c.groups.length 0 =
        0 + 16 + (dataStart - 16) + total (sizes c) + 16 + 12 + 2 + 8 * c.groups.length := by
      simp only [listOffset, mapOffset, dataStart, typeEntryLength]
      omega
    rw [he]
    exact resources.left
  · have he : mapOffset c + nameListOffset c =
        0 + 16 + (dataStart - 16) + total (sizes c) + 16 + 12 + 2 + 8 * c.groups.length +
          20 * (ordered c).length := by
      simp only [nameListOffset, mapOffset, mapPreamble, dataStart, typeEntryLength,
        resourceEntryLength]
      omega
    rw [he]
    exact names

theorem Fits.length_image (h : Fits c) : (image c).length = mapOffset c + mapLength c := by
  simp only [image, List.length_append, length_head, List.length_replicate, length_data,
    length_preamble, length_count_field, h.length_types, length_resources, mapOffset, mapLength,
    nameListOffset, mapPreamble, dataStart, typeEntryLength, resourceEntryLength]
  omega

/-! Reading the parts back -/

theorem read_header (h : Fits c) {file : List UInt8} (hl : Laid c file) :
    readHeader file = some ⟨dataStart, mapOffset c, total (sizes c), mapLength c⟩ := by
  have hh : Holds file 0 (number 4 dataStart ++ number 4 (mapOffset c) ++
    number 4 (total (sizes c)) ++ number 4 (mapLength c)) := hl.headAt
  have h0 := hh.left.left.left.number (by decide)
  have h4 := hh.left.left.right.number h.mapOffset_lt
  have h8 := hh.left.right.number h.dataLength_lt
  have h12 := hh.right.number h.mapLength_lt
  simp only [List.length_append, length_number, Nat.zero_add] at h4 h8 h12
  simp only [readHeader, h0, h4, h8, h12, Option.bind_eq_bind, Option.bind_some, Option.pure_def]

/-- The resources as a reader finds them, in layout order. -/
def placed (c : Container) : List FoundResource :=
  ((ordered c).zip ((nameFields c).zip (starts 0 (sizes c)))).map fun (r, nameOffset, dataOffset) =>
    ⟨r.id.toInt, nameOffset, dataOffset, r.data.data.toList⟩

theorem placed_get {i : Nat} {f : FoundResource} (hf : (placed c)[i]? = some f) :
    ∃ r nameOffset dataOffset, (ordered c)[i]? = some r ∧ (nameFields c)[i]? = some nameOffset ∧
      (starts 0 (sizes c))[i]? = some dataOffset ∧
      f = ⟨r.id.toInt, nameOffset, dataOffset, r.data.data.toList⟩ := by
  simp only [placed, List.getElem?_map, Option.map_eq_some_iff] at hf
  obtain ⟨⟨r, nameOffset, dataOffset⟩, hz, rfl⟩ := hf
  obtain ⟨hr, hz⟩ := List.getElem?_zip_eq_some.mp hz
  obtain ⟨hn, hd⟩ := List.getElem?_zip_eq_some.mp hz
  exact ⟨r, nameOffset, dataOffset, hr, hn, hd, rfl⟩

theorem name_field_lt (h : Fits c) {field : Nat} (hf : field ∈ nameFields c) :
    field < capacity 2 := by
  obtain ⟨⟨r, start⟩, hm, rfl⟩ := List.mem_map.mp hf
  simp only [nameField]
  split
  · decide
  · rename_i hn
    exact (h.nameOffsets_lt _ hm).resolve_left hn

/-- Each entry leads to what its resource was. -/
theorem read_resource (h : Fits c) {file : List UInt8} (hl : Laid c file) {i : Nat}
    {f : FoundResource} (hf : (placed c)[i]? = some f) :
    readResource file dataStart (mapOffset c + 28 + listOffset c.groups.length 0 + 20 * i) =
      some f := by
  obtain ⟨r, nameOffset, dataOffset, hr, hn, hd, rfl⟩ := placed_get hf
  have hb : (resourceBlocks c)[i]? = some (resourceBlock r nameOffset dataOffset) := by
    have hz : ((ordered c).zip ((nameFields c).zip (starts 0 (sizes c))))[i]? =
        some (r, nameOffset, dataOffset) :=
      List.getElem?_zip_eq_some.mpr ⟨hr, List.getElem?_zip_eq_some.mpr ⟨hn, hd⟩⟩
    rw [resourceBlocks, List.getElem?_map, hz, Option.map_some]
  have he := hl.resourcesAt.equal_block (length_resource_block c) hb
  generalize mapOffset c + 28 + listOffset c.groups.length 0 + 20 * i = entry at he ⊢
  have hid := he.left.left.left.left.left.number (wrap_lt_capacity 2 r.id.toInt)
  have hname := he.left.left.left.left.right.number (name_field_lt h (List.mem_of_getElem? hn))
  have hoffset := he.left.left.right.number (h.dataOffsets_lt _ (List.mem_of_getElem? hd))
  have hdata := hl.dataAt.data_block hr hd
  have hlength := hdata.left.number (h.dataLengths_lt _ (List.mem_of_getElem? hr))
  have hbytes := hdata.right.slice
  simp only [List.length_append, length_number, ByteOrder.length_encode, Array.length_toList,
    ByteArray.size_data] at hname hoffset hbytes
  have hsigned : signedValue 2 (wrap 2 r.id.toInt) = r.id.toInt := by
    obtain ⟨low, high⟩ := h.ids r (List.mem_of_getElem? hr)
    exact signed_value_wrap (by simp only [capacity]; omega) (by simp only [capacity]; omega)
  simp only [readResource, hid, hname, hoffset, hlength, hbytes, hsigned, Option.bind_eq_bind,
    Option.bind_some, Option.pure_def]

/-- The types as a reader finds them. -/
def foundTypes (c : Container) : List FoundType :=
  (c.groups.zip (cut (counts c) (placed c))).map fun (g, resources) =>
    ⟨MacRoman.encode g.code, resources⟩

theorem found_types_eq (c : Container) :
    foundTypes c = (catalogue c (placed c)).map fun t => ⟨t.1, t.2⟩ := by
  rw [foundTypes, catalogue, List.map_map]
  rfl

theorem length_placed (c : Container) : (placed c).length = (ordered c).length := by
  rw [placed, List.length_map, List.length_zip, length_resource_fields, Nat.min_self]

theorem length_placed_eq_resources (c : Container) : (placed c).length = c.resources.length := by
  rw [length_placed, ordered, List.length_map]

/-- A type's entry leads to the resources of the type. -/
theorem read_type (h : Fits c) (hfull : ∀ g ∈ c.groups, 0 < g.resources.size)
    {file : List UInt8} (hl : Laid c file) {k : Nat} {t : FoundType}
    (ht : (foundTypes c)[k]? = some t) :
    readType file dataStart (mapOffset c + 28) k = some t := by
  rw [found_types_eq, List.getElem?_map, Option.map_eq_some_iff] at ht
  obtain ⟨run, hrun, rfl⟩ := ht
  obtain ⟨g, preceding, hg, hz, hroom, rfl⟩ := catalogue_get (length_placed_eq_resources c) hrun
  have hm := List.mem_of_getElem? hg
  have hs := (List.getElem?_zip_eq_some.mp hz).2
  have hb : (typeBlocks c)[k]? = some (typeBlock c.groups.length g preceding) := by
    rw [typeBlocks, List.getElem?_map, hz, Option.map_some]
  have he := hl.typesAt.equal_block h.length_type_block hb
  have hcode := he.left.left.slice
  have hlast := he.left.right.number (wrap_lt_capacity 2 _)
  have hlist := he.right.number (h.listOffsets_lt _ (List.mem_of_getElem? hs))
  simp only [List.length_append, length_count_field, h.codes g hm] at hcode hlast hlist
  have hcount := wrap_pred_succ (hfull g hm) (h.counts_lt g hm)
  have hplace : mapOffset c + 28 + listOffset c.groups.length preceding =
      mapOffset c + 28 + listOffset c.groups.length 0 + 20 * preceding := by
    simp only [listOffset, resourceEntryLength]
    omega
  have hread := read_run (fun i f hf => read_resource h hl (i := i) (f := f) hf) hroom
  simp only [readType, hcode, hlast, hlist, hcount, hplace, hread, Option.bind_eq_bind, Option.bind_some,
    Option.pure_def]

theorem read_types (h : Fits c) (hfull : ∀ g ∈ c.groups, 0 < g.resources.size)
    {file : List UInt8} (hl : Laid c file) {header : FoundHeader}
    (hd : header.dataOffset = dataStart) (hm : header.mapOffset = mapOffset c) :
    readTypes file header = some (foundTypes c) := by
  have hlast := hl.typeCountAt.number (wrap_lt_capacity 2 _)
  have hlen : (foundTypes c).length = c.groups.length := by
    rw [found_types_eq, List.length_map, length_catalogue]
  have hread : (List.range (foundTypes c).length).mapM
      (readType file dataStart (mapOffset c + 28)) = some (foundTypes c) :=
    map_m_range fun k t ht => read_type h hfull hl ht
  rw [hlen] at hread
  simp only [readTypes, hd, hm, hlast, wrap_pred h.typeCount_lt, hread, Option.bind_eq_bind,
    Option.bind_some]

/-! What is found is what was written -/

/-- The types of a container with their resources, as far as a file keeps them. -/
def contents (c : Container) : List (List UInt8 × List (Int × List UInt8)) :=
  c.groups.map fun g =>
    (MacRoman.encode g.code, g.resources.toList.map fun r => (r.id.toInt, r.data.data.toList))

/-- The same of what a reader found. -/
def FoundType.contents (t : FoundType) : List UInt8 × List (Int × List UInt8) :=
  (t.code, t.resources.map fun r => (r.id, r.data))

theorem placed_contents (c : Container) :
    (placed c).map (fun f => (f.id, f.data)) =
      (ordered c).map fun r => (r.id.toInt, r.data.data.toList) := by
  rw [placed, List.map_map]
  conv_rhs => rw [← List.map_fst_zip (Nat.le_of_eq (length_resource_fields c).symm), List.map_map]
  rfl

theorem found_contents (c : Container) : (foundTypes c).map FoundType.contents = contents c := by
  have hcatalogue : (foundTypes c).map FoundType.contents =
      catalogue c ((placed c).map fun f => (f.id, f.data)) := by
    rw [found_types_eq, List.map_map, ← map_catalogue]
    rfl
  rw [hcatalogue, placed_contents, ordered, List.map_map]
  exact catalogue_map c fun e => (e.2.id.toInt, e.2.data.data.toList)

/-- All resources of a file, type after type. -/
theorem found_resources (c : Container) : (foundTypes c).flatMap (·.resources) = placed c := by
  rw [found_types_eq, List.flatMap_map]
  exact flat_map_catalogue (length_placed_eq_resources c)

/-- Blocks that start where the one in front ends leave no gap. -/
theorem tiles_starts (first : Nat) (sizes : List Nat) :
    Tiles first (first + total sizes) ((starts first sizes).zip sizes) := by
  induction sizes generalizing first with
  | nil => rfl
  | cons size rest ih =>
    refine ⟨rfl, ?_⟩
    rw [total, ← Nat.add_assoc]
    exact ih (first + size)

theorem starts_shift (first : Nat) (sizes : List Nat) :
    (starts 0 sizes).map (first + ·) = starts first sizes := by
  have step : ∀ shift, (starts shift sizes).map (first + ·) = starts (first + shift) sizes := by
    induction sizes with
    | nil => exact fun _ => rfl
    | cons size rest ih =>
      intro shift
      rw [starts, List.map_cons, ih, starts, Nat.add_assoc]
  exact step 0

/-- The data blocks fill the room between the header and the map. -/
theorem tiles_placed (c : Container) :
    Tiles dataStart (mapOffset c)
      ((placed c).map fun f => (dataStart + f.dataOffset, 4 + f.data.length)) := by
  have hoffsets : (placed c).map (fun f => dataStart + f.dataOffset) =
      starts dataStart (sizes c) := by
    rw [← starts_shift, ← List.map_snd_zip (Nat.le_of_eq (length_data_starts c)),
      ← List.map_snd_zip (Nat.le_of_eq (length_resource_fields c))]
    simp only [placed, List.map_map, Function.comp_def]
  have hsizes : (placed c).map (fun f => 4 + f.data.length) = sizes c := by
    have hp := congrArg (List.map fun p => 4 + p.2.length) (placed_contents c)
    rw [List.map_map, List.map_map] at hp
    refine hp.trans (List.map_congr_left fun r _ => ?_)
    simp
  rw [← List.zip_map', hoffsets, hsizes]
  exact tiles_starts dataStart (sizes c)

/-- The contents that resources are to have in a file: the types in the order of their first use,
and in each its resources in the order of adding. -/
def contentsOf (added : List (String × Resource)) : List (List UInt8 × List (Int × List UInt8)) :=
  (codesOf added).map fun code =>
    (MacRoman.encode code,
      (resourcesOf added code).map fun r => (r.id.toInt, r.data.data.toList))

theorem contents_of_resources (added : List (String × Resource)) :
    contents (.ofResources added) = contentsOf added := by
  rw [contents, (Container.groups_of_resources added).2, List.map_map]
  rfl

theorem total_sizes (added : List (String × Resource)) :
    total (sizes (.ofResources added)) = total (added.map fun e => 4 + e.2.data.size) := by
  rw [sizes, ordered, List.map_map]
  exact total_of_resources added fun e => 4 + e.2.data.size

/-- A file gives back the resources that it was written from: the types in order with the bytes of
their codes, and under each its resources in order with their ids and data. The map repeats the
header, the data blocks fill the room from the header's end to the map, and the file ends where
the map does. The data length in the header is that of all data blocks. -/
theorem standard_round_trip (added : List (String × Resource)) (bytes : ByteArray)
    (h : encode (.ofResources added) = .ok bytes) :
    ∃ header types, readHeader bytes.data.toList = some header ∧
      readTypes bytes.data.toList header = some types ∧
      types.map FoundType.contents = contentsOf added ∧
      slice? bytes.data.toList header.mapOffset 16 = slice? bytes.data.toList 0 16 ∧
      slice? bytes.data.toList 16 240 = some (List.replicate 240 0) ∧
      Tiles 256 header.mapOffset ((types.flatMap (·.resources)).map fun f =>
        (header.dataOffset + f.dataOffset, 4 + f.data.length)) ∧
      bytes.size = header.mapOffset + header.mapLength ∧
      header.dataLength = total (added.map fun e => 4 + e.2.data.size) ∧
      header.mapOffset = header.dataOffset + header.dataLength := by
  obtain ⟨hfits, rfl⟩ := encode_eq_ok.mp h
  have hl := hfits.laid
  have hcopy := hl.copyAt.slice
  have hhead := hl.headAt.slice
  have hgap := hl.gapAt.slice
  rw [length_head] at hcopy hhead
  rw [List.length_replicate] at hgap
  refine ⟨_, _, read_header hfits hl, read_types hfits (Container.groups_nonempty added) hl rfl rfl,
    (found_contents _).trans (contents_of_resources added), hcopy.trans hhead.symm, hgap, ?_,
    hfits.length_image, total_sizes added, rfl⟩
  rw [found_resources]
  exact tiles_placed _

/-- Two types, the first of them with two resources that are not added one behind the other. -/
theorem standard_round_trip_two_types :
    let added : List (String × Resource) :=
      [("AAAA", ⟨1, "One", bytesOf [1, 2, 3]⟩), ("BBBB", ⟨-2, "", bytesOf [4]⟩),
        ("AAAA", ⟨3, "Three", bytesOf []⟩)]
    ∃ bytes, encode (.ofResources added) = .ok bytes ∧
      ∃ header types, readHeader bytes.data.toList = some header ∧
        readTypes bytes.data.toList header = some types ∧
        types.map FoundType.contents =
          [([65, 65, 65, 65], [(1, [1, 2, 3]), (3, [])]), ([66, 66, 66, 66], [(-2, [4])])] := by
  intro added
  have hok : (encode (.ofResources added)).isOk = true := by decide +kernel
  cases hb : encode (.ofResources added) with
  | error e => simp [hb, Except.isOk, Except.toBool] at hok
  | ok bytes =>
    obtain ⟨header, types, hh, ht, hc, -⟩ := standard_round_trip added bytes hb
    exact ⟨bytes, rfl, header, types, hh, ht, hc.trans (by decide +kernel)⟩

end ResourceCompiler.Standard

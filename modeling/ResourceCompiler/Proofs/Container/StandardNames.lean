import ResourceCompiler.Proofs.Container.StandardRoundTrip

/-!
The names of a file in the classic format. Every name is found where its resource's entry says.
The mark of a resource without a name is the largest offset there is, and a name can start there.
-/

namespace ResourceCompiler.Standard

open Layout

/-- The name that an offset field leads to: a length and so many bytes in the list of names. -/
def readName (file : List UInt8) (mapOffset nameOffset : Nat) : Option (List UInt8) := do
  let list ← number? file (mapOffset + 26) 2
  let length ← number? file (mapOffset + list + nameOffset) 1
  slice? file (mapOffset + list + nameOffset + 1) length

variable {c : Container}

/-- Where the name of a resource starts in the list of names, if it has one. -/
def nameStart (c : Container) (i : Nat) : Nat :=
  total (((ordered c).take i).map fun r => (nameBlock r).length)

/-- The name of a resource as it is kept. -/
def storedName (r : Resource) : List UInt8 := (MacRoman.encode r.name).take 255

theorem name_block_eq {r : Resource} (hr : r.name.isEmpty = false) :
    nameBlock r = ByteOrder.big.encode 1 (storedName r).length ++ storedName r := by
  simp [nameBlock, hr, Buffer.pascalBytes, storedName, ByteOrder.encode, lowBytes]

theorem stored_name_lt (r : Resource) : (storedName r).length < capacity 1 := by
  have := List.length_take_le 255 (MacRoman.encode r.name)
  simp only [storedName, capacity]
  omega

theorem name_start_get {i : Nat} {r : Resource} (hr : (ordered c)[i]? = some r) :
    (nameStarts (ordered c))[i]? = some (nameStart c i) := by
  have hi := (List.getElem?_eq_some_iff.mp hr).1
  rw [nameStarts, starts_get _ _ _ (by simpa using hi), Nat.zero_add, nameStart, List.map_take]

theorem name_field_get {i : Nat} {r : Resource} (hr : (ordered c)[i]? = some r) :
    (nameFields c)[i]? = some (nameField r (nameStart c i)) := by
  have hz : ((ordered c).zip (nameStarts (ordered c)))[i]? = some (r, nameStart c i) :=
    List.getElem?_zip_eq_some.mpr ⟨hr, name_start_get hr⟩
  rw [nameFields, List.getElem?_map, hz, Option.map_some]

theorem name_start_le (c : Container) (i : Nat) : nameStart c i ≤ (names c).length := by
  have hsplit : (ordered c).flatMap nameBlock =
      ((ordered c).take i).flatMap nameBlock ++ ((ordered c).drop i).flatMap nameBlock := by
    rw [← List.flatMap_append, List.take_append_drop]
  rw [names, hsplit, List.length_append, List.flatMap_def, length_flatten_eq_total, List.map_map]
  exact Nat.le_add_right ..

theorem placed_of_ordered {i : Nat} {r : Resource} (hr : (ordered c)[i]? = some r) :
    ∃ f, (placed c)[i]? = some f := by
  have hi := (List.getElem?_eq_some_iff.mp hr).1
  rw [← length_placed] at hi
  exact ⟨_, List.getElem?_eq_getElem hi⟩

/-- The offset field that a resource is found with. -/
theorem placed_name {i : Nat} {f : FoundResource} {r : Resource} (hf : (placed c)[i]? = some f)
    (hr : (ordered c)[i]? = some r) : f.nameOffset = nameField r (nameStart c i) := by
  obtain ⟨_, _, _, _, hn, _, rfl⟩ := placed_get hf
  exact Option.some.inj (hn.symm.trans (name_field_get hr))

/-- Each name stands behind those in front of it. -/
theorem name_block_at {file : List UInt8} {position i : Nat} {r : Resource}
    (h : Holds file position (names c)) (hr : (ordered c)[i]? = some r) :
    Holds file (position + nameStart c i) (nameBlock r) := by
  have hnames : names c = ((ordered c).map nameBlock).flatten := by
    simp [names, List.flatMap_def]
  have hblock : ((ordered c).map nameBlock)[i]? = some (nameBlock r) := by simp [hr]
  have hb := (hnames ▸ h).block hblock
  have hstart : total ((((ordered c).map nameBlock).take i).map List.length) = nameStart c i := by
    simp [nameStart, Function.comp_def]
  rwa [hstart] at hb

/-- A name is found where it starts. -/
theorem read_name (h : Fits c) {file : List UInt8} (hl : Laid c file) {i : Nat} {r : Resource}
    (hr : (ordered c)[i]? = some r) (hname : r.name.isEmpty = false) :
    readName file (mapOffset c) (nameStart c i) = some (storedName r) := by
  have hlist := hl.preambleAt.right.number h.nameListOffset_lt
  have hb := name_block_at hl.namesAt hr
  rw [name_block_eq hname] at hb
  have hlength := hb.left.number (stored_name_lt r)
  have hbytes := hb.right.slice
  simp only [List.length_append, List.length_replicate, length_number, ByteOrder.length_encode,
    Nat.add_assoc, Nat.reduceAdd] at hlist hlength hbytes
  simp only [readName, hlist, hlength, hbytes, Option.bind_eq_bind, Option.bind_some,
    Nat.add_assoc]

/-- The offset field of a resource says that it has no name if it has none, and also if its name
starts at the very offset that stands for this. -/
theorem name_field_eq_unnamed {r : Resource} {start : Nat} :
    nameField r start = unnamed ↔ r.name.isEmpty = true ∨ start = unnamed := by
  unfold nameField
  split <;> simp_all

/-- Every name can be read, cut to 255 bytes, where the entry of its resource says; and the entries
tell named from unnamed resources exactly if no name starts at the offset that marks the
unnamed ones. -/
theorem standard_names (added : List (String × Resource)) (bytes : ByteArray)
    (h : encode (.ofResources added) = .ok bytes) :
    ∃ header types, readHeader bytes.data.toList = some header ∧
      readTypes bytes.data.toList header = some types ∧
      (types.flatMap (·.resources)).length = (ordered (.ofResources added)).length ∧
      (∀ (i : Nat) (f : FoundResource) (r : Resource),
        (types.flatMap (·.resources))[i]? = some f →
        (ordered (.ofResources added))[i]? = some r → r.name.isEmpty = false →
          readName bytes.data.toList header.mapOffset f.nameOffset =
            some ((MacRoman.encode r.name).take 255)) ∧
      ((∀ (i : Nat) (f : FoundResource) (r : Resource),
          (types.flatMap (·.resources))[i]? = some f →
          (ordered (.ofResources added))[i]? = some r →
            (f.nameOffset = 0xFFFF ↔ r.name.isEmpty = true)) ↔
        ∀ (i : Nat) (r : Resource), (ordered (.ofResources added))[i]? = some r →
          r.name.isEmpty = false → nameStart (.ofResources added) i ≠ 0xFFFF) := by
  obtain ⟨hfits, rfl⟩ := encode_eq_ok.mp h
  have hl := hfits.laid
  generalize hc : Container.ofResources added = c at hfits hl
  have hfull : ∀ g ∈ c.groups, 0 < g.resources.size := hc ▸ Container.groups_nonempty added
  refine ⟨_, _, read_header hfits hl, read_types hfits hfull hl rfl rfl, ?_, ?_, ?_⟩
  · rw [found_resources, length_placed]
  · rw [found_resources]
    intro i f r hf hr hname
    rw [placed_name hf hr, nameField, if_neg (by simp [hname])]
    exact read_name hfits hl hr hname
  · rw [found_resources]
    constructor
    · intro hmark i r hr hname hstart
      obtain ⟨f, hf⟩ := placed_of_ordered hr
      have hunnamed : f.nameOffset = unnamed := by
        rw [placed_name hf hr]
        exact name_field_eq_unnamed.mpr (.inr hstart)
      rw [(hmark i f r hf hr).mp hunnamed] at hname
      cases hname
    · intro hfree i f r hf hr
      rw [placed_name hf hr]
      refine name_field_eq_unnamed.trans ⟨?_, .inl⟩
      rintro (hname | hstart)
      · exact hname
      · by_contra hname
        exact hfree i r hr (by simpa using hname) hstart

/-- A named resource in front of an unnamed one: the first is found by its name, the second is
told from it. -/
theorem standard_names_two_resources :
    let added : List (String × Resource) :=
      [("AAAA", ⟨1, "One", bytesOf [1]⟩), ("AAAA", ⟨2, "", bytesOf []⟩)]
    ∃ bytes header types, encode (.ofResources added) = .ok bytes ∧
      readHeader bytes.data.toList = some header ∧
      readTypes bytes.data.toList header = some types ∧
      ∀ (i : Nat) (f : FoundResource) (r : Resource),
        (types.flatMap (·.resources))[i]? = some f →
        (ordered (.ofResources added))[i]? = some r →
          (f.nameOffset = 0xFFFF ↔ r.name.isEmpty = true) := by
  intro added
  have hok : (encode (.ofResources added)).isOk = true := by decide +kernel
  have hshort : (names (.ofResources added)).length = 4 := by decide +kernel
  cases hb : encode (.ofResources added) with
  | error e => simp [hb, Except.isOk, Except.toBool] at hok
  | ok bytes =>
    obtain ⟨header, types, hh, ht, -, -, hmark⟩ := standard_names added bytes hb
    refine ⟨bytes, header, types, rfl, hh, ht, hmark.mpr ?_⟩
    intro i _ _ _
    have hle := name_start_le (.ofResources added) i
    omega

/-! A name that is lost -/

/-- How long the names in the crowded file are. All but the last one fill the list of names up to
the mark. -/
def crowdedLength (k : Nat) : Nat := if k < 255 then 255 else if k = 255 then 254 else 1

def crowdedResource (k : Nat) : Resource :=
  ⟨Int64.ofNat (k + 1), String.ofList (List.replicate (crowdedLength k) 'a'), .empty⟩

def crowdedResources : List Resource := (List.range 257).map crowdedResource

/-- So many named resources that the last name starts at the mark of the unnamed ones. -/
def crowded : Container := .ofResources (crowdedResources.map ("TEST", ·))

theorem crowded_groups : crowded.groups = [⟨"TEST", crowdedResources.toArray⟩] :=
  Container.groups_of_one_type "TEST" (by simp [crowdedResources])

theorem crowded_ordered : ordered crowded = crowdedResources := by
  simp [ordered, Container.resources, crowded_groups, Function.comp_def]

theorem crowded_sizes : sizes crowded = List.replicate 257 4 := by
  simp [sizes, crowded_ordered, crowdedResources, crowdedResource, Function.comp_def]

theorem crowded_name_blocks :
    (ordered crowded).map (fun r => (nameBlock r).length) =
      (List.range 257).map fun k => 1 + crowdedLength k := by
  rw [crowded_ordered, crowdedResources, List.map_map]
  refine List.map_congr_left fun k _ => ?_
  have hlength : 0 < crowdedLength k ∧ crowdedLength k ≤ 255 := by
    unfold crowdedLength
    split <;> [omega; split] <;> omega
  have hname : (crowdedResource k).name.isEmpty = false := by
    rw [Bool.eq_false_iff, ne_eq, String.isEmpty_iff, ← String.toList_inj]
    simp [crowdedResource, Nat.ne_of_gt hlength.1]
  rw [Function.comp_apply, name_block_eq hname, List.length_append, ByteOrder.length_encode]
  simp [storedName, crowdedResource, MacRoman.encode, hlength.2]

theorem crowded_fits : Fits crowded := by
  have hstarts : nameStarts (ordered crowded) =
      starts 0 ((List.range 257).map fun k => 1 + crowdedLength k) := by
    rw [nameStarts, crowded_name_blocks]
  have hnames : (names crowded).length = 65537 := by
    rw [names, List.flatMap_def, length_flatten_eq_total, List.map_map]
    exact (congrArg total crowded_name_blocks).trans (by decide +kernel)
  have hcount : (ordered crowded).length = 257 := by
    simp [crowded_ordered, crowdedResources]
  have hmap : mapOffset crowded = 1284 := by
    rw [mapOffset, crowded_sizes]
    decide +kernel
  have hlist : nameListOffset crowded = 5178 := by
    rw [nameListOffset, hcount, crowded_groups]
    rfl
  refine
    { codes := ?_, ids := ?_, dataLengths_lt := ?_, dataOffsets_lt := ?_, nameOffsets_lt := ?_,
      mapOffset_lt := ?_, dataLength_lt := ?_, mapLength_lt := ?_, nameListOffset_lt := ?_,
      typeCount_lt := ?_, counts_lt := ?_, listOffsets_lt := ?_ }
  · simp only [crowded_groups, List.forall_mem_singleton]
    decide +kernel
  · rw [crowded_ordered, crowdedResources, List.forall_mem_map]
    change ∀ k ∈ List.range 257, -32768 ≤ (Int64.ofNat (k + 1)).toInt ∧
      (Int64.ofNat (k + 1)).toInt ≤ 32767
    decide +kernel
  · rw [crowded_ordered, crowdedResources, List.forall_mem_map]
    exact fun _ _ => (by decide : 0 < capacity 4)
  · rw [crowded_sizes]
    decide +kernel
  · intro p hp
    have hstart := (List.of_mem_zip hp).2
    rw [hstarts] at hstart
    have hlt : ∀ start ∈ starts 0 ((List.range 257).map fun k => 1 + crowdedLength k),
        start < capacity 2 := by decide +kernel
    exact .inr (hlt _ hstart)
  · rw [hmap]
    decide
  · rw [crowded_sizes]
    decide +kernel
  · rw [mapLength, hlist, hnames]
    decide
  · rw [hlist]
    decide
  · rw [crowded_groups]
    decide
  · simp only [crowded_groups, List.forall_mem_singleton, List.size_toArray, crowdedResources,
      List.length_map, List.length_range]
    decide
  · simp only [crowded_groups, groupStarts, List.map_cons, List.map_nil, starts,
      List.forall_mem_singleton]
    decide

/-- The last resource of the crowded file has a name and is found without one. -/
theorem crowded_name_lost :
    ∃ bytes header types f r, encode crowded = .ok bytes ∧
      readHeader bytes.data.toList = some header ∧
      readTypes bytes.data.toList header = some types ∧
      (types.flatMap (·.resources))[256]? = some f ∧
      (ordered crowded)[256]? = some r ∧
      f.nameOffset = 0xFFFF ∧ r.name = "a" := by
  have hl := crowded_fits.laid
  have hr : (ordered crowded)[256]? = some (crowdedResource 256) := by
    simp [crowded_ordered, crowdedResources]
  obtain ⟨f, hf⟩ := placed_of_ordered hr
  have hstart : nameStart crowded 256 = unnamed := by
    rw [nameStart, List.map_take, crowded_name_blocks]
    decide +kernel
  refine ⟨_, _, _, f, _, encode_eq_ok.mpr ⟨crowded_fits, rfl⟩, read_header crowded_fits hl,
    read_types crowded_fits (Container.groups_nonempty _) hl rfl rfl, ?_, hr, ?_, rfl⟩
  · rw [found_resources, hf]
  · rw [placed_name hf hr]
    exact name_field_eq_unnamed.mpr (.inr hstart)

end ResourceCompiler.Standard

import ResourceCompiler.Container.Standard
import ResourceCompiler.Report.Attempt
import ResourceCompiler.Proofs.Container.Slices

/-!
When a container can be written in the classic format, and the bytes that are written then. Both
are said without the order in which the encoder makes its checks.
-/

namespace ResourceCompiler

/-! Results of checked parts -/

theorem except_for_m_eq_ok {ε α : Type} {f : α → Except ε Unit} {p : α → Prop}
    (hf : ∀ x u, f x = .ok u ↔ p x) (xs : List α) (u : Unit) :
    xs.forM f = .ok u ↔ ∀ x ∈ xs, p x := by
  induction xs with
  | nil => simp [pure, Except.pure]
  | cons x xs ih =>
    change (f x >>= fun _ => xs.forM f) = .ok u ↔ _
    simp only [except_bind_eq_ok, hf, ih, List.forall_mem_cons, exists_const]

/-- In a list that runs along another one each element has a partner. -/
theorem mem_zip_left {α β : Type} {xs : List α} {ys : List β} {x : α}
    (hlen : ys.length = xs.length) (hx : x ∈ xs) : ∃ y, (x, y) ∈ xs.zip ys := by
  rw [← List.map_fst_zip (Nat.le_of_eq hlen.symm)] at hx
  obtain ⟨⟨_, y⟩, hm, rfl⟩ := List.mem_map.mp hx
  exact ⟨y, hm⟩

theorem mem_zip_right {α β : Type} {xs : List α} {ys : List β} {y : β}
    (hlen : ys.length = xs.length) (hy : y ∈ ys) : ∃ x, (x, y) ∈ xs.zip ys := by
  rw [← List.map_snd_zip (Nat.le_of_eq hlen)] at hy
  obtain ⟨⟨x, _⟩, hm, rfl⟩ := List.mem_map.mp hy
  exact ⟨x, hm⟩

namespace Layout

theorem fit_eq_ok {width value : Nat} {quantity : Quantity} {u : Unit} :
    fit width quantity value = .ok u ↔ value < capacity width := by
  unfold fit
  split <;> simp_all

/-- The ids that a signed 16-bit field holds. -/
def SixteenBit (id : Int64) : Prop := -32768 ≤ id.toInt ∧ id.toInt ≤ 32767

theorem fit_id_eq_ok {id : Int64} {u : Unit} : fitId id = .ok u ↔ SixteenBit id := by
  unfold fitId SixteenBit
  split <;> simp_all

theorem type_code_eq_ok {code : String} {bytes : List UInt8} :
    typeCode code = .ok bytes ↔
      (MacRoman.encode code).length = 4 ∧ bytes = MacRoman.encode code := by
  unfold typeCode
  dsimp only
  split <;> simp_all [eq_comm]

/-! Bytes -/

theorem bytes_of_append (a b : List UInt8) : bytesOf a ++ bytesOf b = bytesOf (a ++ b) := by
  apply ByteArray.ext
  simp [bytesOf]

theorem zeros_eq (count : Nat) : zeros count = bytesOf (List.replicate count 0) := by
  simp [zeros, bytesOf]

/-- A resource's data behind its length. -/
def dataBlock (lengthWidth : Nat) (r : Resource) : List UInt8 :=
  ByteOrder.big.encode lengthWidth r.data.size ++ r.data.data.toList

theorem length_data_block (lengthWidth : Nat) (r : Resource) :
    (dataBlock lengthWidth r).length = lengthWidth + r.data.size := by
  rw [dataBlock, List.length_append, ByteOrder.length_encode, Array.length_toList,
    ByteArray.size_data]

theorem data_blocks_eq (lengthWidth : Nat) (resources : List Resource) :
    dataBlocks lengthWidth resources = bytesOf (resources.map (dataBlock lengthWidth)).flatten := by
  have step : ∀ (written : List UInt8), resources.foldl
      (fun blocks r => blocks ++ bytesOf (ByteOrder.big.encode lengthWidth r.data.size) ++ r.data)
      (bytesOf written) =
        bytesOf (written ++ (resources.map (dataBlock lengthWidth)).flatten) := by
    induction resources with
    | nil => simp
    | cons r rest ih =>
      intro written
      have hd : r.data = bytesOf r.data.data.toList := by simp [bytesOf]
      rw [List.foldl_cons, bytes_of_append]
      conv_lhs => rw [hd, bytes_of_append, ← hd]
      rw [ih]
      simp [dataBlock]
  exact step []

end Layout

open Layout in
/-- Each data block stands behind those in front of it. -/
theorem Holds.data_block {file : List UInt8} {position width i offset : Nat}
    {resources : List Resource} {r : Resource}
    (h : Holds file position (resources.map (dataBlock width)).flatten)
    (hr : resources[i]? = some r)
    (ho : (starts 0 (resources.map fun r => width + r.data.size))[i]? = some offset) :
    Holds file (position + offset) (dataBlock width r) := by
  have hlt : i < (resources.map fun r => width + r.data.size).length := by
    simpa using (List.getElem?_eq_some_iff.mp hr).1
  have hsizes : (resources.map (dataBlock width)).map List.length =
      resources.map fun r => width + r.data.size := by
    simp only [List.map_map, Function.comp_def, length_data_block]
  have hblock : (resources.map (dataBlock width))[i]? = some (dataBlock width r) := by simp [hr]
  have hb := h.block hblock
  rw [starts_get _ _ _ hlt, Option.some.injEq, Nat.zero_add] at ho
  rwa [List.map_take, hsizes, ho] at hb

namespace Standard

open Layout

/-! The parts of a file -/

/-- The resources in layout order. -/
def ordered (c : Container) : List Resource := c.resources.map (·.2)

/-- The bytes that each resource takes in the data. -/
def sizes (c : Container) : List Nat := (ordered c).map fun r => 4 + r.data.size

def mapOffset (c : Container) : Nat := dataStart + total (sizes c)

/-- Where the list of names starts, counted from the map. -/
def nameListOffset (c : Container) : Nat :=
  mapPreamble + 2 + typeEntryLength * c.groups.length + resourceEntryLength * (ordered c).length

def names (c : Container) : List UInt8 := (ordered c).flatMap nameBlock

def mapLength (c : Container) : Nat := nameListOffset c + (names c).length

/-- What the name offset field of a resource holds whose name would start at `start`. -/
def nameField (r : Resource) (start : Nat) : Nat := if r.name.isEmpty then unnamed else start

/-- The name offset fields in layout order. -/
def nameFields (c : Container) : List Nat :=
  ((ordered c).zip (nameStarts (ordered c))).map fun (r, start) => nameField r start

/-- Where a type's list of resources starts, counted from the list of types. -/
def listOffset (typeCount preceding : Nat) : Nat :=
  2 + typeEntryLength * typeCount + resourceEntryLength * preceding

def typeBlock (typeCount : Nat) (g : TypeGroup) (preceding : Nat) : List UInt8 :=
  MacRoman.encode g.code ++ countField 2 g.resources.size ++
    number 2 (listOffset typeCount preceding)

def typeBlocks (c : Container) : List (List UInt8) :=
  (c.groups.zip (groupStarts c.groups)).map fun (g, preceding) =>
    typeBlock c.groups.length g preceding

def resourceBlock (r : Resource) (nameOffset dataOffset : Nat) : List UInt8 :=
  number 2 (wrap 2 r.id.toInt) ++ number 2 nameOffset ++ number 1 0 ++ number 3 dataOffset ++
    number 4 0 ++ number 8 0

def resourceBlocks (c : Container) : List (List UInt8) :=
  ((ordered c).zip ((nameFields c).zip (starts 0 (sizes c)))).map
    fun (r, nameOffset, dataOffset) => resourceBlock r nameOffset dataOffset

def head (c : Container) : List UInt8 := header (mapOffset c) (total (sizes c)) (mapLength c)

/-- The fixed part of the map behind the copy of the header. -/
def preamble (c : Container) : List UInt8 :=
  List.replicate 6 0 ++ number 2 0 ++ number 2 mapPreamble ++ number 2 (nameListOffset c)

/-- The bytes of a container. -/
def image (c : Container) : List UInt8 :=
  head c ++ (List.replicate (dataStart - 16) 0 ++ (((ordered c).map (dataBlock 4)).flatten ++
    (head c ++ (preamble c ++ (countField 2 c.groups.length ++ ((typeBlocks c).flatten ++
      ((resourceBlocks c).flatten ++ names c)))))))

/-- Every number fits the field that it is written to. -/
structure Fits (c : Container) : Prop where
  codes : ∀ g ∈ c.groups, (MacRoman.encode g.code).length = 4
  ids : ∀ r ∈ ordered c, SixteenBit r.id
  dataLengths_lt : ∀ r ∈ ordered c, r.data.size < capacity 4
  dataOffsets_lt : ∀ offset ∈ starts 0 (sizes c), offset < capacity 3
  nameOffsets_lt : ∀ p ∈ (ordered c).zip (nameStarts (ordered c)),
    p.1.name.isEmpty = true ∨ p.2 < capacity 2
  mapOffset_lt : mapOffset c < capacity 4
  dataLength_lt : total (sizes c) < capacity 4
  mapLength_lt : mapLength c < capacity 4
  nameListOffset_lt : nameListOffset c < capacity 2
  typeCount_lt : c.groups.length < capacity 2
  counts_lt : ∀ g ∈ c.groups, g.resources.size < capacity 2
  listOffsets_lt : ∀ preceding ∈ groupStarts c.groups,
    listOffset c.groups.length preceding < capacity 2

/-! The checked parts -/

theorem name_offset_eq_ok {r : Resource} {start field : Nat} :
    nameOffset r start = .ok field ↔
      (r.name.isEmpty = true ∨ start < capacity 2) ∧ field = nameField r start := by
  unfold nameOffset nameField
  split
  · rename_i he
    simp [he, eq_comm]
  · rename_i he
    simp only [except_bind_eq_ok, fit_eq_ok, pure, Except.pure, Except.ok.injEq, exists_const, he,
      Bool.false_eq_true, false_or, eq_comm (a := start)]

theorem type_entry_eq_ok {typeCount preceding : Nat} {g : TypeGroup} {bytes : List UInt8} :
    typeEntry typeCount g preceding = .ok bytes ↔
      ((MacRoman.encode g.code).length = 4 ∧ g.resources.size < capacity 2 ∧
        listOffset typeCount preceding < capacity 2) ∧ bytes = typeBlock typeCount g preceding := by
  unfold typeEntry
  simp only [except_bind_eq_ok, type_code_eq_ok, fit_eq_ok, pure, Except.pure, Except.ok.injEq,
    exists_const]
  constructor
  · rintro ⟨_, ⟨hc, rfl⟩, hr, hl, rfl⟩
    exact ⟨⟨hc, hr, hl⟩, rfl⟩
  · rintro ⟨⟨hc, hr, hl⟩, rfl⟩
    exact ⟨_, ⟨hc, rfl⟩, hr, hl, rfl⟩

theorem resource_entry_eq_ok {r : Resource} {nameOffset dataOffset : Nat} {bytes : List UInt8} :
    resourceEntry r nameOffset dataOffset = .ok bytes ↔
      (SixteenBit r.id ∧ dataOffset < capacity 3) ∧
        bytes = resourceBlock r nameOffset dataOffset := by
  unfold resourceEntry
  by_cases hd : capacity 3 ≤ dataOffset
  · simp only [except_bind_eq_ok, hd, if_true, throw, throwThe, MonadExceptOf.throw,
      reduceCtorEq, false_and, exists_const, and_false, false_iff, not_and]
    exact fun h => absurd h.2 (Nat.not_lt.mpr hd)
  · simp only [except_bind_eq_ok, fit_id_eq_ok, hd, if_false, pure, Except.pure, Except.ok.injEq,
      exists_const]
    constructor
    · rintro ⟨hi, rfl⟩
      exact ⟨⟨hi, Nat.lt_of_not_le hd⟩, rfl⟩
    · rintro ⟨⟨hi, _⟩, rfl⟩
      exact ⟨hi, rfl⟩

/-- What the encoder puts together is the image. -/
theorem written_eq_image (c : Container) :
    bytesOf (head c) ++ zeros (dataStart - 16) ++ dataBlocks 4 (ordered c) ++
      bytesOf (head c ++ List.replicate 6 0 ++ number 2 0 ++ number 2 mapPreamble ++
        number 2 (nameListOffset c) ++ countField 2 c.groups.length ++ (typeBlocks c).flatten ++
        (resourceBlocks c).flatten ++ names c) = bytesOf (image c) := by
  rw [zeros_eq, data_blocks_eq, bytes_of_append, bytes_of_append, bytes_of_append]
  simp only [image, preamble, List.append_assoc]

/-! Lists that run along each other -/

theorem length_group_starts (c : Container) : (groupStarts c.groups).length = c.groups.length := by
  simp [groupStarts, length_starts]

theorem length_name_fields (c : Container) : (nameFields c).length = (ordered c).length := by
  simp [nameFields, nameStarts, length_starts]

theorem length_data_starts (c : Container) :
    (starts 0 (sizes c)).length = (nameFields c).length := by
  simp [length_starts, sizes, length_name_fields]

theorem length_resource_fields (c : Container) :
    ((nameFields c).zip (starts 0 (sizes c))).length = (ordered c).length := by
  simp [length_data_starts, length_name_fields]

/-- A container is written exactly if its numbers fit, and then as its image. -/
theorem encode_eq_ok {c : Container} {bytes : ByteArray} :
    encode c = .ok bytes ↔ Fits c ∧ bytes = bytesOf (image c) := by
  have hnames := except_map_m_eq_ok (f := fun (x : Resource × Nat) => nameOffset x.1 x.2)
    (fun _ _ => name_offset_eq_ok)
  have htypes := except_map_m_eq_ok
    (f := fun (x : TypeGroup × Nat) => typeEntry c.groups.length x.1 x.2)
    (fun _ _ => type_entry_eq_ok)
  have hresources := except_map_m_eq_ok
    (f := fun (x : Resource × Nat × Nat) => resourceEntry x.1 x.2.1 x.2.2)
    (fun _ _ => resource_entry_eq_ok)
  have hlengths := except_for_m_eq_ok
    (f := fun (r : Resource) => fit 4 .resourceDataLength r.data.size) (fun _ _ => fit_eq_ok)
  unfold encode
  simp only [except_bind_eq_ok, hnames, htypes, hresources, hlengths, fit_eq_ok, pure, Except.pure,
    Except.ok.injEq, exists_const]
  constructor
  · rintro ⟨hl, _, ⟨hn, rfl⟩, hmo, hdl, hml, hnl, htc, _, ⟨ht, rfl⟩, _, ⟨hr, rfl⟩, rfl⟩
    refine ⟨⟨?_, ?_, hl, ?_, hn, hmo, hdl, hml, hnl, htc, ?_, ?_⟩, ?_⟩
    · intro g hg
      obtain ⟨start, hm⟩ := mem_zip_left (length_group_starts c) hg
      exact (ht _ hm).1
    · intro r hr'
      obtain ⟨fields, hm⟩ := mem_zip_left (length_resource_fields c) hr'
      exact (hr _ hm).1
    · intro offset ho
      obtain ⟨name, hm⟩ := mem_zip_right (length_data_starts c) ho
      obtain ⟨r, hm⟩ := mem_zip_right (length_resource_fields c) hm
      exact (hr _ hm).2
    · intro g hg
      obtain ⟨start, hm⟩ := mem_zip_left (length_group_starts c) hg
      exact (ht _ hm).2.1
    · intro start hs
      obtain ⟨g, hm⟩ := mem_zip_right (length_group_starts c) hs
      exact (ht _ hm).2.2
    · exact written_eq_image c
  · rintro ⟨h, rfl⟩
    refine ⟨h.dataLengths_lt, _, ⟨h.nameOffsets_lt, rfl⟩, h.mapOffset_lt, h.dataLength_lt,
      h.mapLength_lt, h.nameListOffset_lt, h.typeCount_lt, _, ⟨?_, rfl⟩, _, ⟨?_, rfl⟩, ?_⟩
    · intro x hx
      obtain ⟨hg, hp⟩ := List.of_mem_zip hx
      exact ⟨h.codes _ hg, h.counts_lt _ hg, h.listOffsets_lt _ hp⟩
    · intro x hx
      obtain ⟨hr, hf⟩ := List.of_mem_zip hx
      exact ⟨h.ids _ hr, h.dataOffsets_lt _ (List.of_mem_zip hf).2⟩
    · exact written_eq_image c

end Standard

end ResourceCompiler

import ResourceCompiler.Proofs.Container.Catalogue
import ResourceCompiler.Proofs.Container.Causes
import ResourceCompiler.Proofs.Container.StandardNames

/-!
Which containers the formats take. The encoders check every number against its field; a few of
these checks imply all others. What is refused is refused for a number, an id or a code, never for
where raw bytes were to go.
-/

namespace ResourceCompiler

open Layout

/-! Sums and positions -/

theorem le_total_of_mem {size : Nat} {sizes : List Nat} (h : size ∈ sizes) :
    size ≤ total sizes := by
  obtain ⟨i, hi, rfl⟩ := List.mem_iff_getElem.mp h
  exact Nat.le_of_add_left_le (total_take_succ_le sizes i hi)

theorem total_take_le (sizes : List Nat) (i : Nat) : total (sizes.take i) ≤ total sizes := by
  conv_rhs => rw [← List.take_append_drop i sizes, total_append]
  exact Nat.le_add_right ..

theorem mem_starts {first offset : Nat} {sizes : List Nat} :
    offset ∈ starts first sizes ↔ ∃ i < sizes.length, offset = first + total (sizes.take i) := by
  rw [List.mem_iff_getElem?]
  constructor
  · rintro ⟨i, hi⟩
    have hlt : i < sizes.length := by
      rw [← length_starts first]
      exact (List.getElem?_eq_some_iff.mp hi).1
    rw [starts_get _ _ _ hlt, Option.some.injEq] at hi
    exact ⟨i, hlt, hi.symm⟩
  · rintro ⟨i, hi, rfl⟩
    exact ⟨i, starts_get _ _ _ hi⟩

theorem length_name_block_le (r : Resource) : (nameBlock r).length ≤ 256 := by
  cases hr : r.name.isEmpty with
  | true => simp [nameBlock, hr]
  | false =>
    have hlength := List.length_take_le 255 (MacRoman.encode r.name)
    rw [Standard.name_block_eq hr, List.length_append, ByteOrder.length_encode]
    simp only [Standard.storedName]
    omega

theorem length_names_le (resources : List Resource) :
    (resources.flatMap nameBlock).length ≤ 256 * resources.length := by
  induction resources with
  | nil => simp
  | cons r rest ih =>
    have hr := length_name_block_le r
    rw [List.flatMap_cons, List.length_append, List.length_cons]
    omega

namespace Container

theorem group_size_le {c : Container} {g : TypeGroup} (hg : g ∈ c.groups) :
    g.resources.size ≤ c.resourceCount :=
  le_total_of_mem (List.mem_map_of_mem hg)

theorem preceding_le {c : Container} {preceding : Nat} (h : preceding ∈ groupStarts c.groups) :
    preceding ≤ c.resourceCount := by
  obtain ⟨i, -, rfl⟩ := mem_starts.mp h
  rw [Nat.zero_add]
  exact total_take_le ..

end Container

/-! The classic format -/

namespace Standard

/-- Four bytes for each code, 16 bits for each id, and room for what stands in front of the data,
the names and the map. -/
structure Acceptable (c : Container) : Prop where
  codes : ∀ g ∈ c.groups, (MacRoman.encode g.code).length = 4
  ids : ∀ r ∈ ordered c, SixteenBit r.id
  dataOffsets : ∀ i < c.resourceCount, total ((sizes c).take i) ≤ 0xFFFFFF
  data : 256 + total (sizes c) ≤ 0xFFFFFFFF
  map : 30 + 8 * c.groups.length + 20 * c.resourceCount ≤ 65535
  nameOffsets : ∀ i r, (ordered c)[i]? = some r → r.name.isEmpty = false → nameStart c i ≤ 65535

variable {c : Container}

theorem length_ordered (c : Container) : (ordered c).length = c.resourceCount := by
  rw [ordered, List.length_map, Container.resource_count_eq]

theorem name_list_offset_eq (c : Container) :
    nameListOffset c = 30 + 8 * c.groups.length + 20 * c.resourceCount := by
  rw [nameListOffset, length_ordered, mapPreamble, typeEntryLength, resourceEntryLength]

theorem length_sizes (c : Container) : (sizes c).length = c.resourceCount := by
  rw [sizes, List.length_map, length_ordered]

theorem Fits.acceptable (h : Fits c) : Acceptable c := by
  refine ⟨h.codes, h.ids, ?_, ?_, ?_, ?_⟩
  · intro i hi
    have hoffset := h.dataOffsets_lt _ (mem_starts.mpr ⟨i, (length_sizes c).symm ▸ hi, rfl⟩)
    rw [Nat.zero_add] at hoffset
    exact Nat.le_of_lt_succ hoffset
  · exact Nat.le_of_lt_succ h.mapOffset_lt
  · rw [← name_list_offset_eq]
    exact Nat.le_of_lt_succ h.nameListOffset_lt
  · intro i r hr hname
    have hz : ((ordered c).zip (nameStarts (ordered c)))[i]? = some (r, nameStart c i) :=
      List.getElem?_zip_eq_some.mpr ⟨hr, name_start_get hr⟩
    have hlt := (h.nameOffsets_lt _ (List.mem_of_getElem? hz)).resolve_left (by simp [hname])
    exact Nat.le_of_lt_succ hlt

theorem Acceptable.fits (h : Acceptable c) : Fits c := by
  have hdata := h.data
  have hmap := h.map
  refine ⟨h.codes, h.ids, ?_, ?_, ?_, ?_, ?_, ?_, ?_, ?_, ?_, ?_⟩
  · intro r hr
    have hle : 4 + r.data.size ≤ total (sizes c) :=
      le_total_of_mem (List.mem_map_of_mem (f := fun r => 4 + r.data.size) hr)
    simp only [capacity]
    omega
  · intro offset ho
    obtain ⟨i, hi, rfl⟩ := mem_starts.mp ho
    rw [Nat.zero_add]
    exact Nat.lt_succ_of_le (h.dataOffsets i (length_sizes c ▸ hi))
  · rintro ⟨r, start⟩ hp
    obtain ⟨i, hi⟩ := List.mem_iff_getElem?.mp hp
    obtain ⟨hr, hs⟩ := List.getElem?_zip_eq_some.mp hi
    cases hname : r.name.isEmpty with
    | true => exact .inl rfl
    | false =>
      rw [name_start_get hr, Option.some.injEq] at hs
      right
      rw [← hs]
      exact Nat.lt_succ_of_le (h.nameOffsets i r hr hname)
  · exact Nat.lt_succ_of_le hdata
  · simp only [capacity]
    omega
  · have hnames := length_names_le (ordered c)
    rw [length_ordered] at hnames
    rw [mapLength, name_list_offset_eq, names]
    simp only [capacity]
    omega
  · rw [name_list_offset_eq]
    exact Nat.lt_succ_of_le hmap
  · simp only [capacity]
    omega
  · intro g hg
    have hle := Container.group_size_le hg
    simp only [capacity]
    omega
  · intro preceding hp
    have hle := Container.preceding_le hp
    simp only [listOffset, typeEntryLength, resourceEntryLength, capacity]
    omega

theorem encode_ok_iff (c : Container) : (∃ bytes, encode c = .ok bytes) ↔ Acceptable c := by
  constructor
  · rintro ⟨bytes, h⟩
    exact (encode_eq_ok.mp h).1.acceptable
  · intro h
    exact ⟨_, encode_eq_ok.mpr ⟨h.fits, rfl⟩⟩

end Standard

/-! The indexed format -/

namespace Rez

/-- Four bytes for each code, 16 bits for each id, and 32 bits for the start and for the length of
the map. -/
structure Acceptable (c : Container) : Prop where
  codes : ∀ g ∈ c.groups, (MacRoman.encode g.code).length = 4
  ids : ∀ e ∈ c.resources, SixteenBit e.2.id
  data : headerLength c.resourceCount + total (sizes c) ≤ 0xFFFFFFFF
  map : 8 + 12 * c.groups.length + 266 * c.resourceCount ≤ 0xFFFFFFFF

variable {c : Container}

theorem map_offset_eq (c : Container) :
    mapOffset c = headerLength c.resourceCount + total (sizes c) := by
  rw [mapOffset, dataOffset, Container.resource_count_eq]

theorem map_length_eq (c : Container) :
    mapLength c = 8 + 12 * c.groups.length + 266 * c.resourceCount := by
  rw [mapLength, Container.resource_count_eq, typeEntryLength, resourceEntryLength]

theorem Fits.acceptable (h : Fits c) : Acceptable c := by
  refine ⟨h.codes, h.ids, ?_, ?_⟩
  · rw [← map_offset_eq]
    exact Nat.le_of_lt_succ h.mapOffset_lt
  · rw [← map_length_eq]
    exact Nat.le_of_lt_succ h.mapLength_lt

theorem Acceptable.fits (h : Acceptable c) : Fits c := by
  have hdata := h.data
  have hmap := h.map
  have hstart : dataOffset c + total (sizes c) ≤ 0xFFFFFFFF := by
    rw [← mapOffset, map_offset_eq]
    exact hdata
  refine ⟨h.codes, ?_, h.ids, ?_, ?_, ?_, ?_, ?_, ?_, ?_, ?_, ?_⟩
  · intro e he
    obtain ⟨g, hg, hcode⟩ := Container.code_of_resource he
    rw [← hcode]
    exact h.codes g hg
  · simp only [capacity]
    omega
  · intro offset ho
    obtain ⟨i, -, rfl⟩ := mem_starts.mp ho
    have hle := total_take_le (sizes c) i
    simp only [capacity]
    omega
  · intro e he
    have hle : e.2.data.size ≤ total (sizes c) :=
      le_total_of_mem (List.mem_map_of_mem (f := fun e : String × Resource => e.2.data.size) he)
    simp only [capacity]
    omega
  · exact Nat.lt_succ_of_le hstart
  · rw [map_length_eq]
    exact Nat.lt_succ_of_le hmap
  · simp only [capacity]
    omega
  · intro preceding hp
    have hle := Container.preceding_le hp
    simp only [listOffset, typeEntryLength, resourceEntryLength, capacity]
    omega
  · intro g hg
    have hle := Container.group_size_le hg
    simp only [capacity]
    omega
  · intro index hi
    have hle := (List.mem_range'_1.mp hi).2
    rw [← Container.resource_count_eq] at hle
    simp only [capacity]
    omega

theorem encode_ok_iff (c : Container) : (∃ bytes, encode c = .ok bytes) ↔ Acceptable c := by
  constructor
  · rintro ⟨bytes, h⟩
    exact (encode_eq_ok.mp h).1.acceptable
  · intro h
    exact ⟨_, encode_eq_ok.mpr ⟨h.fits, rfl⟩⟩

end Rez

/-! Refusals -/

/-- What an encoder may refuse. Raw bytes that would not be appended are not among it. -/
inductive Refusal : CompileError → Prop
  | number (quantity : Quantity) (value : Nat) : Refusal (.layout (.doesNotFit quantity value))
  | id (id : Int64) : Refusal (.layout (.idNotSixteenBit id))
  | dataOffset (offset : Nat) : Refusal (.layout (.dataOffsetTooLarge offset))
  | code (code : String) (length : Nat) : Refusal (.layout (.typeCodeLength code length))

theorem Refusal.fault {e : CompileError} (h : Refusal e) :
    ∃ fault, e = .layout fault ∧ ∀ cursor size, fault ≠ .rawDataNotAppended cursor size := by
  cases h with
  | number quantity value => exact ⟨_, rfl, fun _ _ h => by cases h⟩
  | id id => exact ⟨_, rfl, fun _ _ h => by cases h⟩
  | dataOffset offset => exact ⟨_, rfl, fun _ _ h => by cases h⟩
  | code code length => exact ⟨_, rfl, fun _ _ h => by cases h⟩

/-- A part of an encoder that fails with a refusal only. -/
structure Checked {α : Type} (x : Except CompileError α) : Prop where
  refusal : ∀ e, x = .error e → Refusal e

theorem Container.Flaw.refusal {c : Container} {e : CompileError} (h : c.Flaw e) : Refusal e := by
  cases h with
  | number quantity value => exact .number quantity value
  | dataOffset offset => exact .dataOffset offset
  | code => exact .code _ _
  | id => exact .id _

/-! Every format -/

namespace Container

/-- A container as it is put into a buffer. -/
def emit (c : Container) : Format → Except CompileError Buffer
  | .standard => Standard.emit c
  | .extended => Extended.emit c
  | .rez => Rez.emit c

theorem emit_eq_encode (c : Container) (format : Format) :
    (do return (← c.emit format).bytes) = c.encode format := by
  cases format with
  | standard => exact Standard.emit_eq_encode c
  | extended => exact Extended.emit_eq_encode c
  | rez => exact Rez.emit_eq_encode c

theorem encode_checked (c : Container) (format : Format) : Checked (c.encode format) :=
  ⟨fun e h => ((c.encode_finds format).flaw e h).refusal⟩

/-- The 64-bit format asks for four bytes in each code and for nothing else. -/
theorem extended_of_codes {c : Container}
    (hcodes : ∀ g ∈ c.groups, (MacRoman.encode g.code).length = 4) :
    ∃ bytes, c.encode .extended = .ok bytes :=
  ⟨_, Extended.encode_eq_ok.mpr ⟨hcodes, rfl⟩⟩

/-- Exactly the acceptable containers are written. All others are refused, whichever way the bytes
are put together, and never for the place of raw bytes. The 64-bit format takes what any other
format takes. -/
theorem written_iff_acceptable (c : Container) :
    ((∃ bytes, c.encode .standard = .ok bytes) ↔ Standard.Acceptable c) ∧
    ((∃ bytes, c.encode .rez = .ok bytes) ↔ Rez.Acceptable c) ∧
    (∀ format, (∃ bytes, c.encode format = .ok bytes) ∨
      ∃ fault, c.encode format = .error (.layout fault) ∧
        ∀ cursor size, fault ≠ .rawDataNotAppended cursor size) ∧
    (∀ format, (do return (← c.emit format).bytes) = c.encode format) ∧
    (Standard.Acceptable c ∨ Rez.Acceptable c → ∃ bytes, c.encode .extended = .ok bytes) := by
  refine ⟨Standard.encode_ok_iff c, Rez.encode_ok_iff c, ?_, c.emit_eq_encode, ?_⟩
  · intro format
    cases hresult : c.encode format with
    | ok bytes => exact .inl ⟨bytes, rfl⟩
    | error e =>
      obtain ⟨fault, rfl, hfault⟩ := ((c.encode_checked format).refusal e hresult).fault
      exact .inr ⟨fault, rfl, hfault⟩
  · rintro (h | h)
    · exact extended_of_codes h.codes
    · exact extended_of_codes h.codes

/-- A named and an unnamed resource in the classic format: they meet its conditions, so the 64-bit
format takes them too. -/
theorem written_iff_acceptable_two_resources :
    let c : Container :=
      .ofResources [("AAAA", ⟨1, "One", bytesOf [1]⟩), ("BBBB", ⟨-7, "", bytesOf []⟩)]
    Standard.Acceptable c ∧ ∃ bytes, c.encode .extended = .ok bytes := by
  intro c
  obtain ⟨hstandard, -, -, -, hextended⟩ := written_iff_acceptable c
  have hok : (c.encode .standard).isOk = true := by decide +kernel
  have hacceptable : Standard.Acceptable c := by
    apply hstandard.mp
    cases hresult : c.encode .standard with
    | error e => simp [hresult, Except.isOk, Except.toBool] at hok
    | ok bytes => exact ⟨bytes, rfl⟩
  exact ⟨hacceptable, hextended (.inl hacceptable)⟩

end Container

end ResourceCompiler

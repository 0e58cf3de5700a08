import ResourceCompiler.Container.Extended
import ResourceCompiler.Proofs.Container.StandardImage

/-!
When a container can be written in the 64-bit format, and the bytes that are written then.
-/

namespace ResourceCompiler.Extended

open Layout
open Standard (ordered names)

/-- The bytes that each resource takes in the data. -/
def sizes (c : Container) : List Nat := (ordered c).map fun r => 8 + r.data.size

def mapOffset (c : Container) : Nat := dataStart + total (sizes c)

/-- Where the list of names starts, counted from the map. -/
def nameListOffset (c : Container) : Nat :=
  mapPreamble + 8 + typeEntryLength * c.groups.length + resourceEntryLength * (ordered c).length

def mapLength (c : Container) : Nat := nameListOffset c + (names c).length

def typeBlock (typeCount : Nat) (g : TypeGroup) (preceding : Nat) : List UInt8 :=
  MacRoman.encode g.code ++ countField 8 g.resources.size ++
    number 8 (8 + typeEntryLength * typeCount + resourceEntryLength * preceding)

def typeBlocks (c : Container) : List (List UInt8) :=
  (c.groups.zip (groupStarts c.groups)).map fun (g, preceding) =>
    typeBlock c.groups.length g preceding

def resourceBlocks (c : Container) : List (List UInt8) :=
  ((ordered c).zip ((nameStarts (ordered c)).zip (starts 0 (sizes c)))).map
    fun (r, nameStart, dataOffset) => resourceEntry r (nameOffset r nameStart) dataOffset

def head (c : Container) : List UInt8 := header (mapOffset c) (total (sizes c)) (mapLength c)

/-- The fixed part of the map behind the copy of the header. -/
def preamble (c : Container) : List UInt8 :=
  List.replicate 6 0 ++ number 2 0 ++ number 8 mapPreamble ++ number 8 (nameListOffset c)

/-- The bytes of a container. -/
def image (c : Container) : List UInt8 :=
  head c ++ (List.replicate (dataStart - headerLength) 0 ++
    (((ordered c).map (dataBlock 8)).flatten ++ (head c ++ (preamble c ++
      (countField 8 c.groups.length ++ ((typeBlocks c).flatten ++ ((resourceBlocks c).flatten ++
        names c)))))))

theorem type_entry_eq_ok {typeCount preceding : Nat} {g : TypeGroup} {bytes : List UInt8} :
    typeEntry typeCount g preceding = .ok bytes ↔
      (MacRoman.encode g.code).length = 4 ∧ bytes = typeBlock typeCount g preceding := by
  unfold typeEntry
  simp only [except_bind_eq_ok, type_code_eq_ok, pure, Except.pure, Except.ok.injEq]
  constructor
  · rintro ⟨_, ⟨hc, rfl⟩, rfl⟩
    exact ⟨hc, rfl⟩
  · rintro ⟨hc, rfl⟩
    exact ⟨_, ⟨hc, rfl⟩, rfl⟩

/-- What the encoder puts together is the image. -/
theorem written_eq_image (c : Container) :
    bytesOf (head c) ++ zeros (dataStart - headerLength) ++ dataBlocks 8 (ordered c) ++
      bytesOf (head c ++ List.replicate 6 0 ++ number 2 0 ++ number 8 mapPreamble ++
        number 8 (nameListOffset c) ++ countField 8 c.groups.length ++ (typeBlocks c).flatten ++
        (resourceBlocks c).flatten ++ names c) = bytesOf (image c) := by
  rw [zeros_eq, data_blocks_eq, bytes_of_append, bytes_of_append, bytes_of_append]
  simp only [image, preamble, List.append_assoc]

/-- Only a type code can stand in the way of the 64-bit format. -/
theorem encode_eq_ok {c : Container} {bytes : ByteArray} :
    encode c = .ok bytes ↔
      (∀ g ∈ c.groups, (MacRoman.encode g.code).length = 4) ∧ bytes = bytesOf (image c) := by
  have htypes := except_map_m_eq_ok
    (f := fun (x : TypeGroup × Nat) => typeEntry c.groups.length x.1 x.2)
    (fun _ _ => type_entry_eq_ok)
  unfold encode
  simp only [except_bind_eq_ok, htypes, pure, Except.pure, Except.ok.injEq]
  constructor
  · rintro ⟨_, ⟨ht, rfl⟩, rfl⟩
    refine ⟨fun g hg => ?_, written_eq_image c⟩
    obtain ⟨preceding, hm⟩ := mem_zip_left (Standard.length_group_starts c) hg
    exact ht _ hm
  · rintro ⟨hcodes, rfl⟩
    exact ⟨_, ⟨fun x hx => hcodes _ (List.of_mem_zip hx).1, rfl⟩, written_eq_image c⟩

/-! Where the parts stand -/

@[simp] theorem length_number (width n : Nat) : (number width n).length = width :=
  ByteOrder.length_encode _ _ _

@[simp] theorem length_head (c : Container) : (head c).length = 40 := by
  simp [head, header]

@[simp] theorem length_preamble (c : Container) : (preamble c).length = 24 := by
  simp [preamble]

theorem length_data (c : Container) :
    (((ordered c).map (dataBlock 8)).flatten).length = total (sizes c) := by
  rw [length_flatten_eq_total, List.map_map]
  simp only [Function.comp_def, length_data_block, sizes]

theorem length_type_block {c : Container}
    (hcodes : ∀ g ∈ c.groups, (MacRoman.encode g.code).length = 4) :
    ∀ b ∈ typeBlocks c, b.length = 20 := by
  intro b hb
  obtain ⟨⟨g, preceding⟩, hm, rfl⟩ := List.mem_map.mp hb
  have hc := hcodes g (List.of_mem_zip hm).1
  simp [typeBlock, countField, ByteOrder.length_encode, hc]

theorem length_types {c : Container}
    (hcodes : ∀ g ∈ c.groups, (MacRoman.encode g.code).length = 4) :
    (typeBlocks c).flatten.length = 20 * c.groups.length := by
  rw [length_flatten_of_equal (length_type_block hcodes)]
  simp [typeBlocks, Standard.length_group_starts]

/-- The map of a written file, behind the header and the data. -/
theorem map_at (c : Container) : Holds (image c) (mapOffset c)
    (head c ++ (preamble c ++ (countField 8 c.groups.length ++ ((typeBlocks c).flatten ++
      ((resourceBlocks c).flatten ++ names c))))) := by
  have hmap := (Holds.whole (image c)).right.right.right
  rw [length_head, List.length_replicate, length_data] at hmap
  exact hmap

end ResourceCompiler.Extended

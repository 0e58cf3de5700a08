import ResourceCompiler.Assembly.Target
import ResourceCompiler.Container.Format
import ResourceCompiler.Proofs.Text.MacRoman
import ResourceCompiler.Proofs.Container.StandardRoundTrip
import ResourceCompiler.Proofs.Container.ExtendedImage
import ResourceCompiler.Proofs.Container.RezImage

/-!
The type codes in a written file. Types are told apart by the text of their codes, and files keep
four bytes of each; so types whose codes differ only in characters that Mac OS Roman lacks cannot
be told apart in any file.
-/

namespace ResourceCompiler

open Layout

/-! Readers that know nothing but the file -/

/-- The codes in the list of types, in a file of the classic format. -/
def Standard.readCodes (file : List UInt8) : Option (List (List UInt8)) := do
  let header ← readHeader file
  let types ← readTypes file header
  return types.map (·.code)

/-- The codes in the list of types, in a file of the 64-bit format. -/
def Extended.readCodes (file : List UInt8) : Option (List (List UInt8)) := do
  let map ← number? file 16 8
  let list ← number? file (map + 48) 8
  let last ← number? file (map + list) 8
  (List.range ((last + 1) % capacity 8)).mapM fun k =>
    slice? file (map + list + 8 + 20 * k) 4

/-- The codes in the list of types, in a file of the indexed format. The entry of the map is the
last one of the index, in front of the map's name. -/
def Rez.readCodes (file : List UInt8) : Option (List (List UInt8)) := do
  let data ← little? file 8 4
  let map ← little? file (data - 25) 4
  let count ← number? file (map + 4) 4
  (List.range count).mapM fun k => slice? file (map + 8 + 12 * k) 4

def Format.readCodes : Format → List UInt8 → Option (List (List UInt8))
  | .standard => Standard.readCodes
  | .extended => Extended.readCodes
  | .rez => Rez.readCodes

/-! What they find -/

variable {c : Container}

/-- The code at the start of each type's block in a list of such blocks. -/
theorem read_code_blocks {file : List UInt8} {position size : Nat} {codes : List (List UInt8)}
    {blocks : List (List UInt8)} (h : Holds file position blocks.flatten)
    (hs : ∀ b ∈ blocks, b.length = size)
    (hcodes : ∀ (k : Nat) (code : List UInt8), codes[k]? = some code → code.length = 4 ∧
      ∃ rest, blocks[k]? = some (code ++ rest)) :
    (List.range codes.length).mapM (fun k => slice? file (position + size * k) 4) = some codes := by
  refine map_m_range fun k code hk => ?_
  obtain ⟨hlen, rest, hb⟩ := hcodes k code hk
  have hslice := (h.equal_block hs hb).left.slice
  rwa [hlen] at hslice

/-- A type's block stands where the type stands among the types. -/
theorem type_block_get (block : TypeGroup → Nat → List UInt8) {k : Nat} {g : TypeGroup}
    (hg : c.groups[k]? = some g) : ∃ preceding,
      ((c.groups.zip (groupStarts c.groups)).map fun (g, preceding) => block g preceding)[k]? =
        some (block g preceding) := by
  have hk := (List.getElem?_eq_some_iff.mp hg).1
  rw [← Standard.length_group_starts c] at hk
  have hz : (c.groups.zip (groupStarts c.groups))[k]? = some (g, (groupStarts c.groups)[k]) :=
    List.getElem?_zip_eq_some.mpr ⟨hg, List.getElem?_eq_getElem hk⟩
  exact ⟨_, by rw [List.getElem?_map, hz, Option.map_some]⟩

/-- The codes of a container as a file keeps them. -/
def storedCodes (c : Container) : List (List UInt8) := c.groups.map fun g => MacRoman.encode g.code

theorem stored_code_get {k : Nat} {code : List UInt8} (hk : (storedCodes c)[k]? = some code) :
    ∃ g, c.groups[k]? = some g ∧ code = MacRoman.encode g.code := by
  obtain ⟨g, hg, rfl⟩ := Option.map_eq_some_iff.mp (List.getElem?_map ▸ hk)
  exact ⟨g, hg, rfl⟩

/-- Codes of four bytes that stand at the start of the types' blocks are read there. -/
theorem read_stored {file : List UInt8} {position : Nat} {tail : TypeGroup → Nat → List UInt8}
    (size : Nat) (block : TypeGroup → Nat → List UInt8)
    (hcodes : ∀ g ∈ c.groups, (MacRoman.encode g.code).length = 4)
    (hblock : ∀ g preceding, block g preceding = MacRoman.encode g.code ++ tail g preceding)
    (htail : ∀ g preceding, (tail g preceding).length + 4 = size)
    (h : Holds file position
      ((c.groups.zip (groupStarts c.groups)).map fun (g, preceding) => block g preceding).flatten) :
    (List.range c.groups.length).mapM (fun k => slice? file (position + size * k) 4) =
      some (storedCodes c) := by
  have hlen : (storedCodes c).length = c.groups.length := List.length_map ..
  rw [← hlen]
  refine read_code_blocks h ?_ fun k code hk => ?_
  · intro b hb
    obtain ⟨⟨g, preceding⟩, hm, rfl⟩ := List.mem_map.mp hb
    dsimp only
    rw [hblock, List.length_append, hcodes g (List.of_mem_zip hm).1, Nat.add_comm, htail]
  · obtain ⟨g, hg, rfl⟩ := stored_code_get hk
    obtain ⟨preceding, hb⟩ := type_block_get block hg
    exact ⟨hcodes g (List.mem_of_getElem? hg), _, hblock g preceding ▸ hb⟩

theorem Standard.read_stored_codes (hfull : ∀ g ∈ c.groups, 0 < g.resources.size)
    {bytes : ByteArray} (h : encode c = .ok bytes) :
    readCodes bytes.data.toList = some (storedCodes c) := by
  obtain ⟨hfits, rfl⟩ := encode_eq_ok.mp h
  have hbytes : (bytesOf (image c)).data.toList = image c := List.toList_toArray
  have hh := read_header hfits hfits.laid
  have ht : readTypes (image c) ⟨dataStart, mapOffset c, total (sizes c), mapLength c⟩ =
      some (foundTypes c) := read_types hfits hfull hfits.laid rfl rfl
  have hcodes : (foundTypes c).map (·.code) = storedCodes c := by
    have hc := congrArg (List.map (·.1)) (found_contents c)
    rw [List.map_map, contents, List.map_map] at hc
    exact hc
  simp only [hbytes, readCodes, hh, ht, Option.bind_eq_bind, Option.bind_some, Option.pure_def,
    hcodes]

theorem Extended.read_stored_codes {bytes : ByteArray} (h : encode c = .ok bytes)
    (hsize : bytes.size < capacity 8) : readCodes bytes.data.toList = some (storedCodes c) := by
  obtain ⟨hcodes, rfl⟩ := encode_eq_ok.mp h
  have hbytes : (bytesOf (image c)).data.toList = image c := List.toList_toArray
  have hlength : (image c).length < capacity 8 := hsize
  have hmap := map_at c
  have hpreamble := hmap.right
  have hcount := hpreamble.right
  have htypes := hcount.right
  simp only [length_head, length_preamble, Standard.length_count_field, Nat.add_assoc,
    Nat.reduceAdd] at hpreamble hcount htypes
  have hhead : Holds (image c) 0 (number 8 magic ++ number 8 dataStart ++ number 8 (mapOffset c) ++
      number 8 (total (sizes c)) ++ number 8 (mapLength c)) := (Holds.whole (image c)).left
  -- The offsets and the count fit their fields since all of the file does.
  have hroom := htypes.left.within
  rw [length_types hcodes] at hroom
  have hoffset := hhead.left.left.right.number (n := mapOffset c) (by omega)
  have hlist := hpreamble.left.left.right.number (n := mapPreamble) (by decide)
  have hlast := hcount.left.number (wrap_lt_capacity 8 _)
  have hread := read_stored 20 (typeBlock c.groups.length) hcodes
    (fun _ _ => List.append_assoc ..) (fun _ _ => by simp) htypes.left
  simp only [List.length_append, length_number, List.length_replicate, Nat.add_assoc,
    Nat.reduceAdd] at hoffset hlist
  simp only [hbytes, readCodes, hoffset, hlist, mapPreamble, hlast,
    wrap_pred (show c.groups.length < capacity 8 by omega), Option.bind_eq_bind, Option.bind_some,
    Nat.add_assoc (mapOffset c), Nat.reduceAdd]
  simpa only [Nat.add_assoc] using hread

theorem Rez.read_stored_codes {bytes : ByteArray} (h : encode c = .ok bytes) :
    readCodes bytes.data.toList = some (storedCodes c) := by
  obtain ⟨hfits, rfl⟩ := encode_eq_ok.mp h
  have hbytes : (bytesOf (image c)).data.toList = image c := List.toList_toArray
  have hdata := (Holds.whole (image c)).right.right.left.little hfits.dataOffset_lt
  have hentry := (map_entry_at c).left.left.little hfits.mapOffset_lt
  have hmap := map_at c
  have hcount := hmap.right.left.number hfits.typeCount_lt
  have htypes := hmap.right.right.left
  have hback : dataOffset c - 25 = 12 + 12 * c.resources.length := by
    rw [data_offset_eq]
    omega
  simp only [length_little, length_big, signature, List.length_cons, List.length_nil,
    Nat.add_assoc, Nat.reduceAdd] at hdata hcount htypes
  have hread := read_stored 12 (typeBlock c.groups.length) hfits.codes
    (fun _ _ => List.append_assoc ..) (fun _ _ => by simp) htypes
  simp only [hbytes, readCodes, hdata, hback, hentry, hcount, hread, Option.bind_eq_bind,
    Option.bind_some]

theorem Format.read_stored_codes {format : Format} {added : List (String × Resource)}
    {bytes : ByteArray} (h : (Container.ofResources added).encode format = .ok bytes)
    (hsize : format = .extended → bytes.size < capacity 8) :
    format.readCodes bytes.data.toList = some ((codesOf added).map MacRoman.encode) := by
  have hcodes : storedCodes (.ofResources added) = (codesOf added).map MacRoman.encode := by
    rw [storedCodes, (Container.groups_of_resources added).2, List.map_map]
    rfl
  rw [← hcodes]
  cases format with
  | standard => exact Standard.read_stored_codes (Container.groups_nonempty added) h
  | extended => exact Extended.read_stored_codes h (hsize rfl)
  | rez => exact Rez.read_stored_codes h

/-- The codes that a file keeps of its types are different exactly if no two of the types' codes
are the same text once each character that Mac OS Roman lacks is a question mark. -/
theorem stored_codes_distinct_iff (format : Format) (added : List (String × Resource))
    (bytes : ByteArray) (h : (Container.ofResources added).encode format = .ok bytes)
    (hsize : format = .extended → bytes.size < capacity 8) :
    ∃ codes, format.readCodes bytes.data.toList = some codes ∧
      codes = (codesOf added).map MacRoman.encode ∧
      (codes.Nodup ↔ ∀ a ∈ added, ∀ b ∈ added,
        MacRoman.stored a.1 = MacRoman.stored b.1 → a.1 = b.1) := by
  refine ⟨_, Format.read_stored_codes h hsize, rfl, ?_⟩
  have hmem (code : String) : code ∈ codesOf added ↔ ∃ e ∈ added, e.1 = code := by
    rw [codesOf, List.mem_eraseDups, List.mem_map]
  rw [List.nodup_map_iff_inj_on (Container.groups_of_resources added).1]
  constructor
  · intro hinj a ha b hb hs
    exact hinj _ ((hmem _).mpr ⟨a, ha, rfl⟩) _ ((hmem _).mpr ⟨b, hb, rfl⟩)
      (MacRoman.encode_eq_iff.mpr hs)
  · intro hstored x hx y hy he
    obtain ⟨a, ha, rfl⟩ := (hmem x).mp hx
    obtain ⟨b, hb, rfl⟩ := (hmem y).mp hy
    exact hstored a ha b hb (MacRoman.encode_eq_iff.mp he)

/-- Codes that differ in a letter that Mac OS Roman has stay different. -/
theorem stored_codes_distinct_accent :
    let added : List (String × Resource) :=
      [("röid", ⟨1, "", bytesOf [1]⟩), ("roid", ⟨1, "", bytesOf [2]⟩)]
    ∃ bytes codes, (Container.ofResources added).encode .extended = .ok bytes ∧
      bytes.size < capacity 8 ∧ Format.extended.readCodes bytes.data.toList = some codes ∧
      codes.Nodup := by
  intro added
  have hsize : ((Container.ofResources added).encode .extended).toOption.all
      (fun bytes => bytes.size < capacity 8) = true := by decide +kernel
  have hok : ((Container.ofResources added).encode .extended).isOk = true := by decide +kernel
  have hstored : ∀ a ∈ added, ∀ b ∈ added,
      MacRoman.stored a.1 = MacRoman.stored b.1 → a.1 = b.1 := by
    change ∀ a ∈ [_, _], ∀ b ∈ [_, _], _
    simp only [List.forall_mem_cons, List.not_mem_nil, IsEmpty.forall_iff, implies_true, and_true]
    decide +kernel
  cases hb : (Container.ofResources added).encode .extended with
  | error e => simp [hb, Except.isOk, Except.toBool] at hok
  | ok bytes =>
    have hlt : bytes.size < capacity 8 := by simpa [hb, Except.toOption] using hsize
    obtain ⟨codes, hread, -, hiff⟩ := stored_codes_distinct_iff .extended added bytes hb
      (fun _ => hlt)
    exact ⟨bytes, codes, rfl, hlt, hread, hiff.mpr hstored⟩

/-! Types that no file tells apart -/

/-- A type of resources of one byte. -/
def plainType (name code : String) : Schema :=
  ⟨name, code, [⟨"x", false, "", [⟨"x", .integer 1 false, 0, 1, [], none⟩]⟩], [], .unknown⟩

/-- Two types whose codes differ in a letter that Mac OS Roman lacks. -/
def foreignTypes : List Schema := [plainType "Sun" "日abc", plainType "Moon" "月abc"]

/-- A file with one resource of each. -/
def foreignFile (format : Format) : Except CompileError ByteArray := do
  let registry ← foreignTypes.foldlM Registry.register .empty
  let instances := foreignTypes.map fun s => (⟨s.name, 1, "", [], .unknown⟩ : Instance)
  let c ← (Target.assemble (.fresh []) registry instances (.start #[])).1
  c.encode format

/-- Both types are accepted and every format writes the file, with one code for the two. -/
theorem foreign_codes_collide :
    (foreignTypes.map (·.code)).Nodup ∧
      Format.all.map (fun format => (foreignFile format).toOption.bind fun bytes =>
        format.readCodes bytes.data.toList) =
        List.replicate 3 (some [[63, 97, 98, 99], [63, 97, 98, 99]]) := by
  decide +kernel

end ResourceCompiler

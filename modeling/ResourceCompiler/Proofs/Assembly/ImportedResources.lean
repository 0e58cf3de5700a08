import Mathlib
import ResourceCompiler.Proofs.Assembly.Instances
import ResourceCompiler.Proofs.Container.Causes
import ResourceCompiler.Proofs.Schema.Registration

/-!
Imports and the formats. Whatever a file is called, its type code has four characters, and its id
has been written as a word of 16 bits before it is an import at all. So if a format complains about
a code or about an id, it is one that was declared.
-/

namespace ResourceCompiler

/-! Codes and ids of imports -/

theorem length_type_code_of_extension (extension : String) :
    (typeCodeOfExtension extension).toList.length = 4 := by
  unfold typeCodeOfExtension
  split
  case h_7 =>
    simp only [String.toList_ofList, List.length_append, List.length_replicate, List.length_take]
    omega
  all_goals rfl

theorem four_bytes_of_path (p : Path) : (MacRoman.encode (typeCodeOfPath p)).length = 4 := by
  rw [MacRoman.length_encode]
  exact length_type_code_of_extension _

/-- A value's file as a resource. Every format has room for its code and its id. -/
structure Brought (disk : FileSystem) (v : StoredValue) (file : ImportedFile) : Prop where
  file_eq : v.file? = some file
  contents : disk.readBytes (Resolver.pathFrom v.value.location v.value.text) = .ok file.data
  code : file.typeCode = typeCodeOfPath (Resolver.pathFrom v.value.location v.value.text)
  four_bytes : (MacRoman.encode file.typeCode).length = 4
  sixteen_bit : Layout.SixteenBit file.id

namespace Assembly

variable {disk : FileSystem} {r r' : Resolver} {v : StoredValue} {values : List StoredValue}

theorem Stored.brought (h : Stored disk r v r') : ∀ file ∈ v.file?, Brought disk v file := by
  intro file hfile
  have hid := h.sixteen_bit file hfile
  cases h with
  | plain => cases hfile
  | reference _ hresolve _ =>
    cases hfile
    obtain ⟨hread, hcode, -⟩ := Resolver.resolve_eq_ok.mp hresolve
    exact ⟨rfl, hread, hcode, hcode ▸ four_bytes_of_path _, hid⟩

theorem Stores.brought (h : Stores disk r values r') :
    ∀ v ∈ values, ∀ file ∈ v.file?, Brought disk v file := by
  intro v hv
  obtain ⟨_, _, _, -, hstored⟩ := h.stored hv
  exact hstored.brought

end Assembly

/-! Where a resource comes from -/

namespace AssembledInstance

variable {outcome : List AssembledInstance} {e : String × Resource}

/-- A resource is an instance's own or was brought by one of its values. -/
theorem mem_resources : e ∈ outcome.flatMap (·.resources) ↔
    ∃ o ∈ outcome, e = (o.schema.code, ⟨o.source.id, o.source.name, o.blob⟩) ∨
      ∃ v ∈ o.values, ∃ file ∈ v.file?, file.entry = e := by
  rw [List.mem_flatMap]
  refine exists_congr fun o => and_congr_right fun _ => ?_
  simp only [resources, List.mem_cons, List.mem_map, importedBy, List.mem_filterMap,
    Option.mem_def]
  refine or_congr_right ⟨?_, ?_⟩
  · rintro ⟨file, ⟨v, hv, hfile⟩, he⟩
    exact ⟨v, hv, file, hfile, he⟩
  · rintro ⟨v, hv, file, hfile, he⟩
    exact ⟨file, ⟨v, hv, hfile⟩, he⟩

end AssembledInstance

namespace Target

variable {disk : FileSystem}

/-- So a code without four bytes, or an id without 16 bits, belongs to a declared instance. -/
theorem declared_of_resource {outcome : List AssembledInstance}
    (hbrought : ∀ o ∈ outcome, ∀ v ∈ o.values, ∀ file ∈ v.file?, Brought disk v file)
    {e : String × Resource} (he : e ∈ outcome.flatMap (·.resources))
    (hbad : (MacRoman.encode e.1).length ≠ 4 ∨ ¬Layout.SixteenBit e.2.id) :
    ∃ o ∈ outcome, o.schema.code = e.1 ∧ o.source.id = e.2.id := by
  obtain ⟨o, ho, rfl | ⟨v, hv, file, hfile, rfl⟩⟩ := AssembledInstance.mem_resources.mp he
  · exact ⟨o, ho, rfl, rfl⟩
  · have hfits := hbrought o ho v hv file hfile
    rcases hbad with hcode | hid
    · exact absurd hfits.four_bytes hcode
    · exact absurd hfits.sixteen_bit hid

/-- Files never spoil a container. Each file that is referred to is a resource with a code of four
bytes and an id of 16 bits, so a format that finds fault with a code or with an id has found one
that is declared. -/
theorem imports_never_refused (disk : FileSystem) (registry : Registry) (instances : List Instance)
    (diagnostics : Array Diagnostic) (c : Container) (after : Assembly)
    (h : assemble disk registry instances (.start diagnostics) = (.ok c, after)) :
    ∃ outcome : List AssembledInstance, outcome.map (·.source) = instances ∧
      (∀ o ∈ outcome, o.Sound registry) ∧ c = .ofResources (outcome.flatMap (·.resources)) ∧
      (∀ o ∈ outcome, ∀ v ∈ o.values, v.value.form = .fileReference →
        ∃ file, Brought disk v file ∧ file.entry ∈ c.resources) ∧
      ∀ format,
        (∀ code length, c.encode format = .error (.layout (.typeCodeLength code length)) →
          (MacRoman.encode code).length = length ∧ length ≠ 4 ∧
            ∃ i ∈ instances, ∃ schema, registry.get? i.typeName = some schema ∧
              schema.code = code) ∧
        ∀ id, c.encode format = .error (.layout (.idNotSixteenBit id)) →
          ¬Layout.SixteenBit id ∧ ∃ i ∈ instances, i.id = id := by
  obtain ⟨outcome, reserved, final, rfl, hsound, -, hstores, rfl⟩ := assemble_eq_ok h
  have hbrought : ∀ o ∈ outcome, ∀ v ∈ o.values, ∀ file ∈ v.file?, Brought disk v file :=
    fun o ho v hv => hstores.brought v (List.mem_flatMap.mpr ⟨o, ho, hv⟩)
  refine ⟨outcome, rfl, hsound, rfl, ?_, fun format => ⟨fun code length herror => ?_,
    fun id herror => ?_⟩⟩
  · intro o ho v hv hform
    obtain ⟨file, hfile⟩ := Option.isSome_iff_exists.mp (((hsound o ho).file_iff v hv).mpr hform)
    refine ⟨file, hbrought o ho v hv file hfile, Container.mem_resources.mpr ?_⟩
    exact AssembledInstance.mem_resources.mpr ⟨o, ho, .inr ⟨v, hv, file, hfile, rfl⟩⟩
  · cases ((Container.ofResources _).encode_finds format).flaw _ herror with
    | code hg hlength =>
      obtain ⟨e, he, hcode⟩ := Container.entry_of_group hg
      rw [← hcode] at hlength ⊢
      obtain ⟨o, ho, hdeclared, -⟩ := declared_of_resource hbrought he (.inl hlength)
      exact ⟨rfl, hlength, o.source, List.mem_map_of_mem ho, o.schema,
        Registry.lookup_eq_ok.mp (hsound o ho).schema_eq, hdeclared⟩
  · cases ((Container.ofResources _).encode_finds format).flaw _ herror with
    | id he hid =>
      obtain ⟨o, ho, -, hdeclared⟩ :=
        declared_of_resource hbrought (Container.mem_resources.mp he) (.inr hid)
      exact ⟨hid, o.source, List.mem_map_of_mem ho, hdeclared⟩

/-! A run -/

/-- A type with a code of three letters that refers to two resources. -/
def pairType : Schema where
  name := "Pair"
  code := "PAR"
  fields := [⟨"of", true, "", [⟨"a", .resourceReference, 0, 2, [], none⟩,
    ⟨"b", .resourceReference, 2, 2, [], none⟩]⟩]
  references := []
  location := .unknown

def pairTypes : Registry := (Registry.empty.register pairType).toOption.getD .empty

def pairDisk : FileSystem :=
  ((FileSystem.fresh []).put ["a"] (.file (bytesOf [1]))).put ["b.é"] (.file (bytesOf [2]))

def pair : Instance :=
  ⟨"Pair", 5, "", [⟨"of", [⟨.fileReference, "a", ⟨"main.kdl", 2⟩⟩,
    ⟨.fileReference, "b.é", ⟨"main.kdl", 2⟩⟩], ⟨"main.kdl", 2⟩⟩], ⟨"main.kdl", 1⟩⟩

def pairRun : Except CompileError Container × Assembly :=
  assemble pairDisk pairTypes [pair] (.start #[])

/-- The files get the code of four blanks and one with a letter that is not ASCII. No format can
complain about an id here, nor about any code but that of the declared type. -/
theorem imports_never_refused_pair :
    ∃ c after, assemble pairDisk pairTypes [pair] (.start #[]) = (.ok c, after) ∧
      (c.resources.map fun e => (e.1, e.2.id, e.2.data.data.toList)) =
        [("PAR", 5, [0, 5, 0, 5]), ("    ", 5, [1]), ("é   ", 5, [2])] ∧
      ∀ format,
        (∀ code length, c.encode format = .error (.layout (.typeCodeLength code length)) →
          code = "PAR") ∧
        ∀ id, c.encode format ≠ .error (.layout (.idNotSixteenBit id)) := by
  have hresources : (pairRun.1.toOption.map fun c => c.resources.map fun e =>
      (e.1, e.2.id, e.2.data.data.toList)) =
        some [("PAR", 5, [0, 5, 0, 5]), ("    ", 5, [1]), ("é   ", 5, [2])] := by cbv
  have htype : pairTypes.get? pair.typeName = some pairType := by cbv
  rcases hrun : pairRun with ⟨_ | c, after⟩
  · rw [hrun] at hresources
    cases hresources
  · rw [hrun] at hresources
    obtain ⟨outcome, -, -, -, -, hfaults⟩ :=
      imports_never_refused pairDisk pairTypes [pair] #[] c after hrun
    refine ⟨c, after, hrun, Option.some.inj hresources, fun format => ⟨?_, ?_⟩⟩
    · intro code length herror
      obtain ⟨-, -, i, hi, schema, hschema, rfl⟩ := (hfaults format).1 code length herror
      obtain rfl := List.mem_singleton.mp hi
      rw [← Option.some.inj (htype.symm.trans hschema)]
      rfl
    · intro id herror
      obtain ⟨hid, i, hi, rfl⟩ := (hfaults format).2 id herror
      obtain rfl := List.mem_singleton.mp hi
      exact hid ⟨by decide, by decide⟩

end Target

end ResourceCompiler

import ResourceCompiler.Assembly.Target
import ResourceCompiler.Proofs.Assembly.FreeIds
import ResourceCompiler.Proofs.Assembly.Reporting
import ResourceCompiler.Proofs.Container.Grouping

/-!
The instances of a target, one after the other. All declared ids are taken before the first file is
imported, and each import takes one more, so what the resolver has taken is always what the
container holds or will hold.
-/

namespace ResourceCompiler

/-- The files that some values imported, in order. -/
def importedBy (values : List StoredValue) : List ImportedFile :=
  values.filterMap StoredValue.file?

theorem imported_by_append (values others : List StoredValue) :
    importedBy (values ++ others) = importedBy values ++ importedBy others :=
  List.filterMap_append

/-- Whether one of some files has an id under a code. -/
def Imported (files : List ImportedFile) (code : String) (id : Int64) : Prop :=
  ∃ file ∈ files, file.typeCode = code ∧ file.id = id

theorem imported_append {files others : List ImportedFile} {code : String} {id : Int64} :
    Imported (files ++ others) code id ↔ Imported files code id ∨ Imported others code id := by
  simp [Imported, or_and_right, exists_or]

namespace Assembly

variable {disk : FileSystem} {r r' : Resolver} {v : StoredValue} {values : List StoredValue}

/-- The last id of every code is free, so no count can run past it. -/
def Ample (r : Resolver) : Prop := ∀ code, ¬r.Uses code Int64.maxValue

/-- Under every code an id that takes more than 16 bits is free, which no import can take. -/
def Spare (r : Resolver) : Prop := ∀ code, ∃ id, ¬Layout.SixteenBit id ∧ ¬r.Uses code id

theorem not_sixteen_bit_max : ¬Layout.SixteenBit Int64.maxValue := by
  unfold Layout.SixteenBit
  decide

theorem Ample.spare (h : Ample r) : Spare r := fun code => ⟨_, not_sixteen_bit_max, h code⟩

theorem Stored.uses (h : Stored disk r v r') {code : String} {id : Int64} :
    r'.Uses code id ↔ r.Uses code id ∨ Imported v.file?.toList code id := by
  cases h with
  | plain => simp [Imported]
  | reference _ hfile _ =>
    obtain ⟨-, -, -, -, rfl⟩ := Resolver.resolve_eq_ok.mp hfile
    rw [Resolver.uses_reserve, or_comm]
    simp [Imported, eq_comm]

theorem Stores.uses (h : Stores disk r values r') {code : String} {id : Int64} :
    r'.Uses code id ↔ r.Uses code id ∨ Imported (importedBy values) code id := by
  induction h with
  | nil => simp [Imported, importedBy]
  | @cons _ _ _ v rest head _ ih =>
    have hsplit : importedBy (v :: rest) = v.file?.toList ++ importedBy rest := by
      unfold importedBy
      cases hf : v.file? <;> simp [hf]
    rw [ih, head.uses, hsplit, imported_append, or_assoc]

theorem Stores.split {xs ys : List StoredValue} (h : Stores disk r (xs ++ ys) r') :
    ∃ r₁, Stores disk r xs r₁ ∧ Stores disk r₁ ys r' := by
  induction xs generalizing r with
  | nil => exact ⟨r, .nil, h⟩
  | cons x rest ih =>
    cases h with
    | cons head tail =>
      obtain ⟨r₁, hxs, hys⟩ := ih tail
      exact ⟨r₁, .cons head hxs, hys⟩

/-- Each value was stored in some state that the values before it led to. -/
theorem Stores.stored (h : Stores disk r values r') (hv : v ∈ values) :
    ∃ xs r₁ r₂, Stores disk r xs r₁ ∧ Stored disk r₁ v r₂ := by
  obtain ⟨xs, ys, rfl⟩ := List.append_of_mem hv
  obtain ⟨r₁, hxs, hrest⟩ := h.split
  cases hrest with
  | cons head _ => exact ⟨xs, r₁, _, hxs, head⟩

/-- The id of an import is written as a word of 16 bits. -/
theorem Stored.sixteen_bit (h : Stored disk r v r') :
    ∀ file ∈ v.file?, Layout.SixteenBit file.id := by
  cases h with
  | plain => nofun
  | reference hform _ hbytes =>
    rintro _ ⟨⟩
    obtain ⟨hlow, hhigh, -⟩ := (Slot.encodes_reference hform).mp hbytes
    exact ⟨hlow, hhigh⟩

theorem Stores.uses_of_wide (h : Stores disk r values r') {code : String} {id : Int64}
    (hid : ¬Layout.SixteenBit id) : r'.Uses code id ↔ r.Uses code id := by
  rw [h.uses, or_iff_left]
  rintro ⟨file, hmem, -, rfl⟩
  obtain ⟨v, hv, hfile⟩ := List.mem_filterMap.mp hmem
  obtain ⟨_, _, _, -, hstored⟩ := h.stored hv
  exact hid (hstored.sixteen_bit file hfile)

theorem Stores.ample (h : Stores disk r values r') (ha : Ample r) : Ample r' :=
  fun code => (h.uses_of_wide not_sixteen_bit_max).not.mpr (ha code)

theorem Stored.ample (h : Stored disk r v r') (ha : Ample r) : Ample r' :=
  Stores.ample (.cons h .nil) ha

theorem Stores.spare (h : Stores disk r values r') (hs : Spare r) : Spare r' := by
  intro code
  obtain ⟨id, hid, hfree⟩ := hs code
  exact ⟨id, hid, (h.uses_of_wide hid).not.mpr hfree⟩

/-- A file that is imported for its value: read where the source says, under the least id from the
owner's on that was not taken, which is written as a signed word. -/
structure Imports (disk : FileSystem) (r : Resolver) (v : StoredValue) (file : ImportedFile) :
    Prop where
  file_eq : v.file? = some file
  read : disk.readBytes (Resolver.pathFrom v.value.location v.value.text) = .ok file.data
  code : file.typeCode = typeCodeOfPath (Resolver.pathFrom v.value.location v.value.text)
  word : Slot.EncodesId file.id.toInt v.bytes
  free : ¬r.Uses file.typeCode file.id
  from_owner : v.owner ≤ file.id
  between : ∀ id, v.owner ≤ id → id < file.id → r.Uses file.typeCode id

theorem Stored.imports (h : Stored disk r v r') (ha : Ample r)
    (hform : v.value.form = .fileReference) : ∃ file, Imports disk r v file := by
  cases h with
  | plain hother => exact absurd hform hother
  | @reference owner _ _ _ _ _ file hform hfile hbytes =>
    obtain ⟨hread, hcode, -, hid, -⟩ := Resolver.resolve_eq_ok.mp hfile
    have hmax : owner ≤ Int64.maxValue := Int64.le_iff_toInt_le.mpr (Int64.toInt_le owner)
    obtain ⟨hfree, hfrom, hbetween⟩ := Resolver.free_id_least hmax (ha file.typeCode)
    rw [← hid] at hfree hfrom hbetween
    exact ⟨file, rfl, hread, hcode, (Slot.encodes_reference hform).mp hbytes, hfree, hfrom,
      hbetween⟩

theorem Stored.file_iff (h : Stored disk r v r') :
    v.file?.isSome = true ↔ v.value.form = .fileReference := by
  cases h with
  | plain hother => exact ⟨nofun, fun hform => absurd hform hother⟩
  | reference hform => exact ⟨fun _ => hform, fun _ => rfl⟩

/-- As long as ids are left, a file is given one that was free. -/
theorem Stored.fresh (h : Stored disk r v r') (hs : Spare r) :
    ∀ file ∈ v.file?, ¬r.Uses file.typeCode file.id := by
  cases h with
  | plain => nofun
  | @reference _ _ _ _ _ _ file _ hfile _ =>
    rintro _ ⟨⟩
    obtain ⟨-, -, -, hid, -⟩ := Resolver.resolve_eq_ok.mp hfile
    obtain ⟨z, -, hz⟩ := hs file.typeCode
    rw [hid]
    exact Resolver.free_id_unused hz

/-- No file is given an id that was taken before. -/
theorem Stores.fresh (h : Stores disk r values r') (hs : Spare r) :
    ∀ file ∈ importedBy values, ¬r.Uses file.typeCode file.id := by
  intro file hmem
  obtain ⟨v, hv, hfile⟩ := List.mem_filterMap.mp hmem
  obtain ⟨xs, r₁, r₂, hxs, hstored⟩ := h.stored hv
  exact fun hused => hstored.fresh (hxs.spare hs) file hfile (hxs.uses.mpr (.inl hused))

end Assembly

/-! The instances of a target -/

/-- An instance with the values that were stored for it. -/
structure AssembledInstance where
  source : Instance
  schema : Schema
  values : List StoredValue
  blob : ByteArray

def ImportedFile.entry (file : ImportedFile) : String × Resource :=
  (file.typeCode, ⟨file.id, file.name, file.data⟩)

namespace AssembledInstance

/-- What goes into the container for an instance: its own resource and behind it those of the files
that it refers to. -/
def resources (o : AssembledInstance) : List (String × Resource) :=
  (o.schema.code, ⟨o.source.id, o.source.name, o.blob⟩) ::
    (importedBy o.values).map ImportedFile.entry

/-- The values are those that the instance has by its schema, the blob shows their bytes, and only
file references import files. -/
structure Sound (registry : Registry) (o : AssembledInstance) : Prop where
  schema_eq : registry.lookup o.source.typeName o.source.location = .ok o.schema
  entries : o.values.map StoredValue.entry =
    valued (o.schema.fields.flatMap o.source.contents)
  owners : ∀ v ∈ o.values, v.owner = o.source.id
  file_iff : ∀ v ∈ o.values, v.file?.isSome = true ↔ v.value.form = .fileReference
  blob_eq : ∃ b : Buffer, b.bytes = o.blob ∧
    b.Shows o.schema.requiredSize (o.values.map StoredValue.writing)

/-- The instance is encoded, from one state to the next: its values are stored one by one, and just
the files of these wait to be collected. -/
structure Encoded (disk : FileSystem) (o : AssembledInstance) (before after : Assembly) : Prop where
  blob_eq : Assembly.encode disk o.schema o.source before = (.ok o.blob, after)
  stores : Assembly.Stores disk before.resolver o.values after.resolver
  imports : after.imports = importedBy o.values

end AssembledInstance

/-- Whether one of some instances is declared with an id under a code. -/
def Declared (outcome : List AssembledInstance) (code : String) (id : Int64) : Prop :=
  ∃ o ∈ outcome, o.schema.code = code ∧ o.source.id = id

namespace Target

variable {disk : FileSystem} {registry : Registry}

/-- Finding the types leaves everything but the ids in use, to which it adds those declared. -/
theorem reserve_all_eq_ok {instances : List Instance} {before after : Assembly}
    {typed : List (Instance × Schema)}
    (h : reserveAll registry instances before = (.ok typed, after)) :
    typed.map (·.1) = instances ∧
      (∀ e ∈ typed, registry.lookup e.1.typeName e.1.location = .ok e.2) ∧
      after.imports = before.imports ∧ after.diagnostics = before.diagnostics ∧
      ∀ code id, after.resolver.Uses code id ↔
        before.resolver.Uses code id ∨ ∃ e ∈ typed, e.2.code = code ∧ e.1.id = id := by
  induction instances generalizing before typed with
  | nil =>
    cases h
    exact ⟨rfl, by simp, rfl, rfl, by simp⟩
  | cons i rest ih =>
    unfold reserveAll at h ih
    rw [List.mapM_cons] at h
    obtain ⟨e, a₁, hfirst, h⟩ := Attempt.bind_eq_ok.mp h
    obtain ⟨others, a₂, hrest, h⟩ := Attempt.bind_eq_ok.mp h
    cases h
    obtain ⟨schema, a₃, hlookup, hreserve⟩ := Attempt.bind_eq_ok.mp hfirst
    obtain ⟨hschema, rfl⟩ := Attempt.lift_eq_ok.mp hlookup
    cases hreserve
    obtain ⟨hmap, hall, himports, hsaid, huses⟩ := ih hrest
    refine ⟨congrArg _ hmap, List.forall_mem_cons.mpr ⟨hschema, hall⟩, himports, hsaid,
      fun code id => ?_⟩
    rw [huses, Resolver.uses_reserve]
    simp only [List.exists_mem_cons_iff]
    constructor
    · rintro ((⟨rfl, rfl⟩ | h) | h)
      · exact .inr (.inl ⟨rfl, rfl⟩)
      · exact .inl h
      · exact .inr (.inr h)
    · rintro (h | ⟨rfl, rfl⟩ | h)
      · exact .inl (.inr h)
      · exact .inl (.inl ⟨rfl, rfl⟩)
      · exact .inr h

/-- Encoding instances one after the other. Before the next one the files are collected. -/
inductive Encodes (disk : FileSystem) : Assembly → List AssembledInstance → Assembly → Prop
  | nil {a : Assembly} : Encodes disk a [] a
  | cons {before encoded after : Assembly} {o : AssembledInstance} {rest : List AssembledInstance}
    (head : o.Encoded disk before encoded)
    (tail : Encodes disk { encoded with imports := [] } rest after) :
    Encodes disk before (o :: rest) after

theorem Encodes.stores {before after : Assembly} {outcome : List AssembledInstance}
    (h : Encodes disk before outcome after) :
    Assembly.Stores disk before.resolver (outcome.flatMap (·.values)) after.resolver := by
  induction h with
  | nil => exact .nil
  | cons head _ ih => exact head.stores.append ih

/-- What an instance adds to the container and to the warnings. -/
def Progress.add (p : Progress) (o : AssembledInstance) : Progress where
  container := o.resources.foldl (fun c entry => c.add entry.1 entry.2) p.container
  duplicates :=
    if p.container.contains o.schema.code o.source.id then
      p.duplicates ++ [duplicateWarning o.source o.schema]
    else p.duplicates

theorem Progress.container_add_all (p : Progress) (outcome : List AssembledInstance) :
    (outcome.foldl add p).container =
      (outcome.flatMap (·.resources)).foldl (fun c entry => c.add entry.1 entry.2) p.container := by
  induction outcome generalizing p with
  | nil => rfl
  | cons o rest ih => rw [List.foldl_cons, ih, List.flatMap_cons, List.foldl_append, add]

theorem foldl_add_import (c : Container) (files : List ImportedFile) :
    files.foldl addImport c =
      (files.map ImportedFile.entry).foldl (fun c entry => c.add entry.1 entry.2) c := by
  rw [List.foldl_map]
  rfl

/-- One instance: it is encoded, and its resources go into the container. -/
theorem add_instance_eq_ok {p p' : Progress} {i : Instance} {schema : Schema}
    {before after : Assembly} (hnone : before.imports = [])
    (hschema : registry.lookup i.typeName i.location = .ok schema)
    (h : addInstance disk p i schema before = (.ok p', after)) :
    ∃ (o : AssembledInstance) (encoded : Assembly), (o.source, o.schema) = (i, schema) ∧
      o.Sound registry ∧ o.Encoded disk before encoded ∧ after = { encoded with imports := [] } ∧
      p' = p.add o := by
  obtain ⟨blob, a₁, hblob, h⟩ := Attempt.bind_eq_ok.mp h
  obtain ⟨files, a₂, hfiles, h⟩ := Attempt.bind_eq_ok.mp h
  cases hfiles
  cases h
  obtain ⟨-, b, values, rfl, hshows, hentries, howners, hstores, himports⟩ :=
    Assembly.encode_eq_ok hblob
  rw [hnone, List.nil_append] at himports
  have hfiles : ∀ v ∈ values, v.file?.isSome = true ↔ v.value.form = .fileReference := by
    intro v hv
    obtain ⟨_, _, _, _, hstored⟩ := hstores.stored hv
    exact hstored.file_iff
  refine ⟨⟨i, schema, values, b.bytes⟩, a₁, rfl,
    ⟨hschema, hentries, howners, hfiles, b, rfl, hshows⟩, ⟨hblob, hstores, himports⟩, rfl, ?_⟩
  rw [himports, foldl_add_import]
  rfl

theorem add_instances_eq_ok {typed : List (Instance × Schema)} {p p' : Progress}
    {before after : Assembly} (hnone : before.imports = [])
    (hschema : ∀ e ∈ typed, registry.lookup e.1.typeName e.1.location = .ok e.2)
    (h : typed.foldlM (fun p e => addInstance disk p e.1 e.2) p before = (.ok p', after)) :
    ∃ outcome : List AssembledInstance, (outcome.map fun o => (o.source, o.schema)) = typed ∧
      (∀ o ∈ outcome, o.Sound registry) ∧ Encodes disk before outcome after ∧
      p' = outcome.foldl Progress.add p := by
  induction typed generalizing p before with
  | nil =>
    cases h
    exact ⟨[], rfl, by simp, .nil, rfl⟩
  | cons e rest ih =>
    rw [List.foldlM_cons] at h
    rw [List.forall_mem_cons] at hschema
    obtain ⟨p₁, a₁, hfirst, hrest⟩ := Attempt.bind_eq_ok.mp h
    obtain ⟨o, encoded, hsource, hsound, hencoded, rfl, rfl⟩ :=
      add_instance_eq_ok hnone hschema.1 hfirst
    obtain ⟨outcome, hsources, hsounds, hall, rfl⟩ := ih rfl hschema.2 hrest
    exact ⟨o :: outcome, by rw [List.map_cons, hsource, hsources],
      List.forall_mem_cons.mpr ⟨hsound, hsounds⟩, .cons hencoded hall, rfl⟩

/-- A target that is assembled: all instances were encoded one after the other, from a state in
which just the declared ids were taken, and the warnings about repeated ids follow. -/
theorem assemble_run {instances : List Instance} {diagnostics : Array Diagnostic} {c : Container}
    {after : Assembly}
    (h : assemble disk registry instances (.start diagnostics) = (.ok c, after)) :
    ∃ (outcome : List AssembledInstance) (reserved final : Assembly),
      outcome.map (·.source) = instances ∧ (∀ o ∈ outcome, o.Sound registry) ∧
      (∀ code id, reserved.resolver.Uses code id ↔ Declared outcome code id) ∧
      reserved.diagnostics = diagnostics ∧ Encodes disk reserved outcome final ∧
      c = (outcome.foldl Progress.add ⟨.empty, []⟩).container ∧
      after.diagnostics.toList =
        final.diagnostics.toList ++ (outcome.foldl Progress.add ⟨.empty, []⟩).duplicates := by
  obtain ⟨typed, a₁, htyped, h⟩ := Attempt.bind_eq_ok.mp h
  obtain ⟨p, a₂, hadded, h⟩ := Attempt.bind_eq_ok.mp h
  obtain ⟨⟨⟩, a₃, hreported, h⟩ := Attempt.bind_eq_ok.mp h
  cases h
  obtain ⟨hmap, hschema, himports, hsaid, huses⟩ := reserve_all_eq_ok htyped
  obtain ⟨outcome, hsources, hsound, hencodes, rfl⟩ := add_instances_eq_ok himports hschema hadded
  refine ⟨outcome, a₁, a₂, ?_, hsound, fun code id => ?_, hsaid, hencodes, rfl,
    Assembly.Reports.report_all _ hreported⟩
  · rw [← hmap, ← hsources, List.map_map]
    rfl
  · rw [huses, ← hsources]
    simp [Assembly.start, Resolver.not_uses_empty, Declared]

/-- Its container holds the resources of all instances, and their values were stored one after the
other. -/
theorem assemble_eq_ok {instances : List Instance} {diagnostics : Array Diagnostic} {c : Container}
    {after : Assembly}
    (h : assemble disk registry instances (.start diagnostics) = (.ok c, after)) :
    ∃ (outcome : List AssembledInstance) (reserved final : Resolver),
      outcome.map (·.source) = instances ∧ (∀ o ∈ outcome, o.Sound registry) ∧
      (∀ code id, reserved.Uses code id ↔ Declared outcome code id) ∧
      Assembly.Stores disk reserved (outcome.flatMap (·.values)) final ∧
      c = .ofResources (outcome.flatMap (·.resources)) := by
  obtain ⟨outcome, reserved, final, hsources, hsound, huses, -, hencodes, rfl, -⟩ := assemble_run h
  exact ⟨outcome, _, _, hsources, hsound, huses, hencodes.stores, Progress.container_add_all ..⟩

end Target

end ResourceCompiler

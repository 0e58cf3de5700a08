import Mathlib
import ResourceCompiler.Proofs.Assembly.Instances
import ResourceCompiler.Proofs.Schema.Registration

/-!
The order of a target. Its instances stand in the container as they are declared, each with the
files that it imports behind it, and the warnings follow the same order. An import is never given an
id that is declared, so a warning about a repeated id is always about two declarations.
-/

namespace ResourceCompiler

/-! Ids that are left -/

/-- Counting up from the first id behind those of 16 bits, half of all ids come before one of them
is met again. -/
theorem not_sixteen_bit_add {k : Nat} (hk : k < 0x8000000000000000) :
    ¬Layout.SixteenBit (32768 + Int64.ofNat k) := by
  have hsum : (32768 : Int64) + Int64.ofNat k = Int64.ofInt (32768 + k) := by
    rw [Int64.ofInt_add]
    rfl
  rw [Layout.SixteenBit, hsum, Int64.toInt_ofInt, Int.bmod_def]
  simp only [Int64.size]
  split <;> omega

theorem spare_of_declared {r : Resolver} {outcome : List AssembledInstance}
    (hlength : outcome.length < 0x8000000000000000)
    (huses : ∀ code id, r.Uses code id ↔ Declared outcome code id) : Assembly.Spare r := by
  intro code
  have hids : (outcome.map (·.source.id)).length < 0x8000000000000000 := by rwa [List.length_map]
  obtain ⟨k, hk, hfree⟩ := exists_not_mem_of_length_lt (by decide) hids 32768
  refine ⟨_, not_sixteen_bit_add hk, fun hused => hfree ?_⟩
  obtain ⟨o, ho, -, hid⟩ := (huses _ _).mp hused
  exact List.mem_map.mpr ⟨o, ho, hid⟩

/-! Repeated instances -/

namespace AssembledInstance

variable {registry : Registry} {o other : AssembledInstance}

/-- Whether an instance has the type and the id of another one. -/
def repeats (o other : AssembledInstance) : Bool :=
  o.source.typeName == other.source.typeName && o.source.id == other.source.id

/-- The instances that repeat one in front of them. -/
def repeated (front : List AssembledInstance) : List AssembledInstance → List AssembledInstance
  | [] => []
  | o :: rest =>
    if front.any o.repeats then o :: repeated (front ++ [o]) rest
    else repeated (front ++ [o]) rest

def duplicateWarning (o : AssembledInstance) : Diagnostic :=
  Target.duplicateWarning o.source o.schema

/-- Instances have one code exactly if they have one type. -/
theorem Sound.code_eq_iff (hc : registry.Coherent) (h : o.Sound registry)
    (h' : other.Sound registry) :
    o.schema.code = other.schema.code ↔ o.source.typeName = other.source.typeName := by
  have ho := Registry.lookup_eq_ok.mp h.schema_eq
  have hother := Registry.lookup_eq_ok.mp h'.schema_eq
  constructor
  · intro hcode
    rw [← hc.name_of_get ho, ← hc.name_of_get hother, hc.eq_of_code ho hother hcode]
  · intro hname
    rw [hname, hother] at ho
    rw [Option.some.inj ho]

theorem exists_resource_iff {code : String} {id : Int64} :
    (∃ e ∈ o.resources, e.1 = code ∧ e.2.id = id) ↔
      (o.schema.code = code ∧ o.source.id = id) ∨ Imported (importedBy o.values) code id := by
  simp [resources, Imported, ImportedFile.entry]

end AssembledInstance

/-- An id that the resources of some instances have is declared or an import's. -/
theorem contains_resources_iff {outcome : List AssembledInstance} {code : String} {id : Int64} :
    (Container.ofResources (outcome.flatMap (·.resources))).contains code id = true ↔
      Declared outcome code id ∨ Imported (importedBy (outcome.flatMap (·.values))) code id := by
  rw [Container.contains_of_resources]
  induction outcome with
  | nil => simp [Declared, Imported, importedBy]
  | cons o rest ih =>
    have hdeclared : Declared (o :: rest) code id ↔
        (o.schema.code = code ∧ o.source.id = id) ∨ Declared rest code id :=
      List.exists_mem_cons_iff ..
    have himported : importedBy ((o :: rest).flatMap (·.values)) =
        importedBy o.values ++ importedBy (rest.flatMap (·.values)) := by
      rw [List.flatMap_cons, imported_by_append]
    rw [List.flatMap_cons, hdeclared, himported, imported_append, or_or_or_comm, ← ih,
      ← AssembledInstance.exists_resource_iff]
    simp only [List.mem_append, or_and_right, exists_or]

namespace Target

variable {registry : Registry}

/-- Whether the container has the id of the next instance depends on the declarations alone: as it
is declared, no import has it, and its code belongs to one type only. -/
theorem contains_eq_repeats (hc : registry.Coherent) {front rest : List AssembledInstance}
    {o : AssembledInstance} (hsound : ∀ e ∈ front ++ o :: rest, e.Sound registry)
    (hfresh : ∀ file ∈ importedBy ((front ++ o :: rest).flatMap (·.values)),
      ¬Declared (front ++ o :: rest) file.typeCode file.id) :
    (Container.ofResources (front.flatMap (·.resources))).contains o.schema.code o.source.id =
      front.any o.repeats := by
  have hown : o ∈ front ++ o :: rest := List.mem_append_right _ List.mem_cons_self
  have hnone : ¬Imported (importedBy (front.flatMap (·.values))) o.schema.code o.source.id := by
    rintro ⟨file, hfile, hcode, hid⟩
    refine hfresh file ?_ ⟨o, hown, hcode.symm, hid.symm⟩
    rw [List.flatMap_append, imported_by_append]
    exact List.mem_append_left _ hfile
  rw [Bool.eq_iff_iff, contains_resources_iff, or_iff_left hnone, List.any_eq_true]
  refine exists_congr fun e => and_congr_right fun he => ?_
  have hcode := (hsound e (List.mem_append_left _ he)).code_eq_iff hc (hsound o hown)
  rw [hcode, AssembledInstance.repeats, Bool.and_eq_true, beq_iff_eq, beq_iff_eq,
    @eq_comm _ o.source.typeName, @eq_comm _ o.source.id]

/-- The warnings that come up are about the instances that repeat one in front of them. -/
theorem duplicates_add_all (hc : registry.Coherent) (front rest : List AssembledInstance)
    (p : Progress) (hsound : ∀ o ∈ front ++ rest, o.Sound registry)
    (hfresh : ∀ file ∈ importedBy ((front ++ rest).flatMap (·.values)),
      ¬Declared (front ++ rest) file.typeCode file.id)
    (hp : p.container = .ofResources (front.flatMap (·.resources))) :
    (rest.foldl Progress.add p).duplicates =
      p.duplicates ++ (AssembledInstance.repeated front rest).map (·.duplicateWarning) := by
  induction rest generalizing front p with
  | nil => exact (List.append_nil _).symm
  | cons o rest ih =>
    have hcontains := contains_eq_repeats hc hsound hfresh
    have hnext : (p.add o).container = .ofResources ((front ++ [o]).flatMap (·.resources)) := by
      rw [Progress.add, hp, Container.ofResources, Container.ofResources, List.flatMap_append,
        List.flatMap_singleton, List.foldl_append]
    rw [List.append_cons] at hsound hfresh
    rw [List.foldl_cons, ih _ _ hsound hfresh hnext, Progress.add, AssembledInstance.repeated, hp,
      hcontains]
    dsimp only
    split
    · rw [List.map_cons, List.append_assoc]
      rfl
    · rfl

/-- While instances are encoded, just their deprecated fields are reported. -/
theorem Encodes.reported {disk : FileSystem} {before after : Assembly}
    {outcome : List AssembledInstance} (h : Encodes disk before outcome after) :
    after.diagnostics.toList = before.diagnostics.toList ++
      outcome.flatMap fun o => o.source.deprecations o.schema := by
  induction h with
  | nil => exact (List.append_nil _).symm
  | cons head _ ih =>
    rw [ih, List.flatMap_cons, ← List.append_assoc, ← Assembly.encode_reports _ _ _ head.blob_eq]

/-- Looking for the types ends at the first instance of an unknown one. -/
theorem reserve_all_eq_error {front : List Instance} {i : Instance} (back : List Instance)
    (hfront : ∀ j ∈ front, (registry.get? j.typeName).isSome = true)
    (hi : registry.get? i.typeName = none) (before : Assembly) :
    ∃ after, after.diagnostics = before.diagnostics ∧
      reserveAll registry (front ++ i :: back) before =
        (.error (.meaning i.location (.unknownType i.typeName)), after) := by
  induction front generalizing before with
  | nil =>
    have hlookup : registry.lookup i.typeName i.location =
        .error (.meaning i.location (.unknownType i.typeName)) := by
      rw [Registry.lookup, hi]
    refine ⟨before, rfl, ?_⟩
    rw [reserveAll, List.nil_append, List.mapM_cons, hlookup]
    exact Attempt.bind_error (Attempt.bind_error rfl)
  | cons j rest ih =>
    obtain ⟨hj, hrest⟩ := List.forall_mem_cons.mp hfront
    obtain ⟨schema, hschema⟩ := Option.isSome_iff_exists.mp hj
    have hlookup : registry.lookup j.typeName j.location = .ok schema :=
      Registry.lookup_eq_ok.mpr hschema
    obtain ⟨after, hsaid, hafter⟩ :=
      ih hrest { before with resolver := before.resolver.reserve schema.code j.id }
    refine ⟨after, hsaid, ?_⟩
    rw [reserveAll, List.cons_append, List.mapM_cons, hlookup]
    exact (Attempt.bind_ok rfl).trans (Attempt.bind_error hafter)

/-- A target is assembled in order. The instances were encoded one after the other, once all their
ids were taken, and no import has one of these. The container has the types in the order of first
use and under each type its part of all resources: of each instance its own and then those of its
imports. The warnings about deprecated fields come first, instance by instance, and then those about
repeated instances. -/
structure InOrder (disk : FileSystem) (registry : Registry) (instances : List Instance)
    (diagnostics : Array Diagnostic) (c : Container) (after : Assembly)
    (outcome : List AssembledInstance) : Prop where
  sources : outcome.map (·.source) = instances
  sound : ∀ o ∈ outcome, o.Sound registry
  encodes : ∃ reserved final : Assembly,
    (∀ code id, reserved.resolver.Uses code id ↔ Declared outcome code id) ∧
      Encodes disk reserved outcome final
  undeclared : ∀ file ∈ importedBy (outcome.flatMap (·.values)),
    ¬Declared outcome file.typeCode file.id
  groups : c.groups = (codesOf (outcome.flatMap (·.resources))).map fun code =>
    ⟨code, (resourcesOf (outcome.flatMap (·.resources)) code).toArray⟩
  diagnostics : after.diagnostics.toList =
    diagnostics.toList ++ outcome.flatMap (fun o => o.source.deprecations o.schema) ++
      (AssembledInstance.repeated [] outcome).map (·.duplicateWarning)

/-- A target is assembled in order or not at all. If a type is unknown, the first instance of such a
type is reported, whatever the files are, and nothing has been reported before. A list in memory has
fewer entries than half of all ids, so an import always finds an id that is left. -/
theorem assembled_in_order (disk : FileSystem) (registry : Registry) (instances : List Instance)
    (diagnostics : Array Diagnostic) (hregistry : registry.Registered)
    (hlength : instances.length < 0x8000000000000000) :
    (∀ c after, assemble disk registry instances (.start diagnostics) = (.ok c, after) →
      ∃ outcome, InOrder disk registry instances diagnostics c after outcome) ∧
    ((∃ i ∈ instances, registry.get? i.typeName = none) →
      ∃ i after, instances.find? (fun i => (registry.get? i.typeName).isNone) = some i ∧
        after.diagnostics = diagnostics ∧ ∀ files : FileSystem,
          assemble files registry instances (.start diagnostics) =
            (.error (.meaning i.location (.unknownType i.typeName)), after)) := by
  constructor
  · intro c after h
    obtain ⟨outcome, reserved, final, rfl, hsound, huses, rfl, hencodes, rfl, hreported⟩ :=
      assemble_run h
    rw [List.length_map] at hlength
    have hfresh : ∀ file ∈ importedBy (outcome.flatMap (·.values)),
        ¬Declared outcome file.typeCode file.id := by
      intro file hfile
      rw [← huses]
      exact hencodes.stores.fresh (spare_of_declared hlength huses) file hfile
    refine ⟨outcome, rfl, hsound, ⟨reserved, final, huses, hencodes⟩, hfresh, ?_, ?_⟩
    · rw [Progress.container_add_all]
      exact (Container.groups_of_resources _).2
    · have hduplicates :=
        duplicates_add_all hregistry.coherent [] outcome ⟨.empty, []⟩ hsound hfresh rfl
      rw [hreported, hencodes.reported, hduplicates, List.nil_append]
  · rintro ⟨j, hj, hnone⟩
    have hsome : (instances.find? fun i => (registry.get? i.typeName).isNone).isSome = true :=
      List.find?_isSome.mpr ⟨j, hj, by rw [hnone]; rfl⟩
    obtain ⟨i, hi⟩ := Option.isSome_iff_exists.mp hsome
    obtain ⟨hunknown, front, back, rfl, hfront⟩ := List.find?_eq_some_iff_append.mp hi
    have hknown : ∀ k ∈ front, (registry.get? k.typeName).isSome = true := by
      simpa using hfront
    obtain ⟨after, hsaid, hafter⟩ := reserve_all_eq_error back hknown
      (Option.isNone_iff_eq_none.mp hunknown) (.start diagnostics)
    exact ⟨i, after, hi, hsaid, fun files => Attempt.bind_error hafter⟩

/-! A run -/

/-- A type of the code that text files get, with a field that is no longer to be used. -/
def noteType : Schema where
  name := "Note"
  code := "TEXT"
  fields := [⟨"mark", false, "use text", [⟨"x", .integer 1 false, 0, 1, [], none⟩]⟩,
    ⟨"text", false, "", [⟨"id", .resourceReference, 1, 2, [], none⟩]⟩]
  references := []
  location := .unknown

def tagType : Schema := ⟨"Tag", "TAG ", [], [], .unknown⟩

def noteTypes : Registry :=
  ([noteType, tagType].foldlM Registry.register .empty).toOption.getD .empty

def noteDisk : FileSystem := (FileSystem.fresh []).put ["a.txt"] (.file (bytesOf [104, 105]))

def notes : List Instance :=
  [⟨"Note", 5, "first", [⟨"text", [⟨.fileReference, "a.txt", ⟨"main.kdl", 2⟩⟩], ⟨"main.kdl", 2⟩⟩,
      ⟨"mark", [⟨.integer, "7", ⟨"main.kdl", 3⟩⟩], ⟨"main.kdl", 3⟩⟩], ⟨"main.kdl", 1⟩⟩,
    ⟨"Tag", 5, "", [], ⟨"main.kdl", 4⟩⟩, ⟨"Note", 5, "second", [], ⟨"main.kdl", 5⟩⟩]

def noteRun : Except CompileError Container × Assembly :=
  assemble noteDisk noteTypes notes (.start #[])

def ghost : Instance := ⟨"Ghost", 1, "", [], ⟨"main.kdl", 6⟩⟩

/-- The file of the first note gets the id 6, as both notes have the id 5 under the code of text
files. The second note is the only one that is reported as repeated. -/
theorem assembled_in_order_notes :
    (∃ c after outcome, assemble noteDisk noteTypes notes (.start #[]) = (.ok c, after) ∧
      InOrder noteDisk noteTypes notes #[] c after outcome ∧
      (c.resources.map fun e => (e.1, e.2.id, e.2.data.data.toList)) =
        [("TEXT", 5, [7, 0, 6]), ("TEXT", 6, [104, 105]), ("TEXT", 5, [0, 0, 0]),
          ("TAG ", 5, [])] ∧
      after.diagnostics.toList.map Diagnostic.text =
        ["main.kdl:3: warning[W0001]: field 'mark' of Note is deprecated: use text",
          "main.kdl:5: warning[W0001]: field 'mark' of Note is deprecated: use text",
          "main.kdl:5: warning[W0002]: duplicate resource id #5 for type 'Note'"]) ∧
    ∃ after, after.diagnostics = #[] ∧
      assemble noteDisk noteTypes (notes ++ [ghost]) (.start #[]) =
        (.error (.meaning ⟨"main.kdl", 6⟩ (.unknownType "Ghost")), after) := by
  have hregistered : noteTypes.Registered := ⟨[noteType, tagType], rfl⟩
  constructor
  · have hresources : (noteRun.1.toOption.map fun c => c.resources.map fun e =>
        (e.1, e.2.id, e.2.data.data.toList)) =
          some [("TEXT", 5, [7, 0, 6]), ("TEXT", 6, [104, 105]), ("TEXT", 5, [0, 0, 0]),
            ("TAG ", 5, [])] := by cbv
    have htexts : noteRun.2.diagnostics.toList.map Diagnostic.text =
        ["main.kdl:3: warning[W0001]: field 'mark' of Note is deprecated: use text",
          "main.kdl:5: warning[W0001]: field 'mark' of Note is deprecated: use text",
          "main.kdl:5: warning[W0002]: duplicate resource id #5 for type 'Note'"] := by cbv
    rcases hrun : noteRun with ⟨e | c, after⟩
    · rw [hrun] at hresources
      cases hresources
    · rw [hrun] at hresources htexts
      obtain ⟨outcome, hinorder⟩ :=
        (assembled_in_order noteDisk noteTypes notes #[] hregistered (by decide)).1 c after hrun
      exact ⟨c, after, outcome, hrun, hinorder, Option.some.inj hresources, htexts⟩
  · have hfirst : (notes ++ [ghost]).find? (fun i => (noteTypes.get? i.typeName).isNone) =
        some ghost := by cbv
    obtain ⟨i, after, hi, hsaid, hrun⟩ :=
      (assembled_in_order noteDisk noteTypes (notes ++ [ghost]) #[] hregistered (by decide)).2
        ⟨ghost, by simp, by cbv⟩
    obtain rfl := Option.some.inj (hfirst.symm.trans hi)
    exact ⟨after, hsaid, hrun noteDisk⟩

end Target

end ResourceCompiler

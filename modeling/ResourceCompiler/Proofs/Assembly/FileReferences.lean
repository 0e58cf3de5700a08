import Mathlib
import ResourceCompiler.Proofs.Assembly.Instances
import ResourceCompiler.Proofs.Container.Slices

/-!
What becomes of file references. The resolver has taken the ids of all that the container holds or
will hold, so an import's id is its own in the whole container.
-/

namespace ResourceCompiler

/-! One reference among all -/

/-- A place in an assembled target: an instance among the others and a value among its own. -/
structure Place where
  front : List AssembledInstance
  owner : AssembledInstance
  back : List AssembledInstance
  earlier : List StoredValue
  value : StoredValue
  later : List StoredValue

namespace Place

def outcome (s : Place) : List AssembledInstance := s.front ++ s.owner :: s.back

/-- The values that are stored in front of it, in its own instance and in those before. -/
def before (s : Place) : List StoredValue := s.front.flatMap (·.values) ++ s.earlier

def after (s : Place) : List StoredValue := s.later ++ s.back.flatMap (·.values)

/-- The path of the file that the value refers to. -/
def path (s : Place) : Path := Resolver.pathFrom s.value.value.location s.value.value.text

/-- A file reference is kept: the container has one resource for it, of the file's contents, and the
value is its id. Neither a declared resource nor another import of that code has this id, and it is
the least from the instance's id on that was left. -/
structure Kept (s : Place) (disk : FileSystem) (c : Container) (file : ImportedFile) : Prop where
  code : file.typeCode = typeCodeOfPath s.path
  contents : disk.readBytes s.path = .ok file.data
  resource : c.resources.filter (fun e => e.1 == file.typeCode && e.2.id == file.id) = [file.entry]
  word : Slot.EncodesId file.id.toInt s.value.bytes
  read_back : (∀ v ∈ s.later, v.writing.limit ≤ s.value.slot.offset ∨
      s.value.slot.offset + 2 ≤ v.writing.position) →
    (number? s.owner.blob.data.toList s.value.slot.offset 2).map (signedValue 2) =
      some file.id.toInt
  undeclared : ¬Declared s.outcome file.typeCode file.id
  unique : ¬Imported (importedBy s.before ++ importedBy s.after) file.typeCode file.id
  from_owner : s.owner.source.id ≤ file.id
  between : ∀ id, s.owner.source.id ≤ id → id < file.id →
    Declared s.outcome file.typeCode id ∨ Imported (importedBy s.before) file.typeCode id

theorem values_eq {s : Place} (h : s.owner.values = s.earlier ++ s.value :: s.later) :
    s.outcome.flatMap (·.values) = s.before ++ s.value :: s.after := by
  rw [outcome, List.flatMap_append, List.flatMap_cons, h, before, after]
  simp only [List.append_assoc, List.cons_append]

end Place

/-- What was written last where it stands is read there. -/
theorem Buffer.Shows.slice_of_spared {b : Buffer} {room : Nat} {earlier later : List Writing}
    {w : Writing} (h : b.Shows room (earlier ++ w :: later))
    (hspared : ∀ u ∈ later, u.limit ≤ w.position ∨ w.limit ≤ u.position) :
    slice? b.bytes.data.toList w.position w.bytes.length = some w.bytes := by
  have hsize : w.limit ≤ b.bytes.data.toList.length := by
    rw [← b.size_eq, h.size, List.map_append, List.foldl_append, List.map_cons, List.foldl_cons,
      Buffer.foldl_max]
    exact Nat.le_max_right ..
  refine slice_of_bytes hsize fun k hk => (h.bytes _).trans ?_
  rw [List.append_cons, shown_append_untouched, shown_append_one, Writing.byte_get hk,
    Option.getD_some]
  intro u hu
  have hu := hspared u hu
  have hlimit : w.limit = w.position + w.bytes.length := rfl
  exact Writing.byte_eq_none (by omega)

theorem read_back_id {blob : List UInt8} {position : Nat} {id : Int} {bytes : List UInt8}
    (hid : Slot.EncodesId id bytes) (h : slice? blob position bytes.length = some bytes) :
    (number? blob position 2).map (signedValue 2) = some id := by
  obtain ⟨hlow, hhigh, rfl⟩ := hid
  rw [ByteOrder.length_encode] at h
  have hcapacity : (capacity 2 : Int) = 65536 := rfl
  rw [number?, h, Option.map_some, ByteOrder.decode_encode, Nat.mod_eq_of_lt (wrap_lt_capacity ..),
    Option.map_some, signed_value_wrap (by omega) (by omega)]

/-- An id that was stored is read back if all that was stored after it lies elsewhere. -/
theorem AssembledInstance.Sound.read_back {registry : Registry} {o : AssembledInstance}
    (h : o.Sound registry) {earlier later : List StoredValue} {v : StoredValue} {id : Int}
    (hvalues : o.values = earlier ++ v :: later) (hword : Slot.EncodesId id v.bytes)
    (hspared : ∀ u ∈ later, u.writing.limit ≤ v.slot.offset ∨
      v.slot.offset + 2 ≤ u.writing.position) :
    (number? o.blob.data.toList v.slot.offset 2).map (signedValue 2) = some id := by
  obtain ⟨b, hb, hshows⟩ := h.blob_eq
  rw [hvalues, List.map_append, List.map_cons] at hshows
  rw [← hb]
  refine read_back_id hword (hshows.slice_of_spared ?_)
  obtain ⟨-, -, hbytes⟩ := hword
  have hlimit : v.writing.limit = v.slot.offset + 2 := by
    change v.slot.offset + v.bytes.length = _
    rw [hbytes, ByteOrder.length_encode]
  rw [hlimit]
  exact List.forall_mem_map.mpr hspared

/-- Whether an entry of a container stands for an id of a code. -/
def isFor (code : String) (id : Int64) (e : String × Resource) : Bool :=
  e.1 == code && e.2.id == id

theorem filter_entries_of_not_imported {files : List ImportedFile} {code : String} {id : Int64}
    (h : ¬Imported files code id) : (files.map ImportedFile.entry).filter (isFor code id) = [] := by
  rw [List.filter_eq_nil_iff]
  refine List.forall_mem_map.mpr fun file hfile hmatch => h ⟨file, hfile, ?_⟩
  simpa [isFor, ImportedFile.entry] using hmatch

/-- For an id that is not declared, only imports count. -/
theorem filter_resources_of_not_declared {outcome : List AssembledInstance} {code : String}
    {id : Int64} (h : ¬Declared outcome code id) :
    (outcome.flatMap (·.resources)).filter (isFor code id) =
      ((importedBy (outcome.flatMap (·.values))).map ImportedFile.entry).filter
        (isFor code id) := by
  induction outcome with
  | nil => rfl
  | cons o rest ih =>
    have hhead : isFor code id (o.schema.code, ⟨o.source.id, o.source.name, o.blob⟩) = false := by
      refine Bool.eq_false_iff.mpr fun hmatch => h ⟨o, List.mem_cons_self, ?_⟩
      simpa [isFor] using hmatch
    have hrest : ¬Declared rest code id := by
      rintro ⟨other, hother, hdeclared⟩
      exact h ⟨other, List.mem_cons_of_mem _ hother, hdeclared⟩
    rw [List.flatMap_cons, List.flatMap_cons, imported_by_append, List.map_append,
      List.filter_append, List.filter_append, ih hrest, AssembledInstance.resources,
      List.filter_cons_of_neg (by simp [hhead])]

theorem container_filter_eq (added : List (String × Resource)) (code : String) (id : Int64) :
    (Container.ofResources added).resources.filter (isFor code id) =
      added.filter (isFor code id) := by
  have hsplit : isFor code id = fun e => e.2.id == id && e.1 == code :=
    funext fun e => Bool.and_comm ..
  rw [hsplit, ← List.filter_filter, Container.filter_resources, List.filter_filter]

/-- An import whose id is no other one's has one resource. -/
theorem filter_resources_of_import {outcome : List AssembledInstance}
    {before after : List ImportedFile} {file : ImportedFile}
    (hfiles : importedBy (outcome.flatMap (·.values)) = before ++ file :: after)
    (hundeclared : ¬Declared outcome file.typeCode file.id)
    (hbefore : ¬Imported before file.typeCode file.id)
    (hafter : ¬Imported after file.typeCode file.id) :
    (Container.ofResources (outcome.flatMap (·.resources))).resources.filter
      (isFor file.typeCode file.id) = [file.entry] := by
  have hself : isFor file.typeCode file.id file.entry = true := by
    simp [isFor, ImportedFile.entry]
  rw [container_filter_eq, filter_resources_of_not_declared hundeclared, hfiles, List.map_append,
    List.filter_append, filter_entries_of_not_imported hbefore, List.map_cons,
    List.filter_cons_of_pos hself, filter_entries_of_not_imported hafter]
  rfl

/-- Every file reference of an assembled target is kept. Ids count up from those declared, none of
which may be the last one. -/
theorem file_references_kept (disk : FileSystem) (registry : Registry) (instances : List Instance)
    (diagnostics : Array Diagnostic) (c : Container) (after : Assembly)
    (hids : ∀ i ∈ instances, i.id < Int64.maxValue)
    (h : Target.assemble disk registry instances (.start diagnostics) = (.ok c, after)) :
    ∃ outcome : List AssembledInstance, outcome.map (·.source) = instances ∧
      (∀ o ∈ outcome, o.Sound registry) ∧ c = .ofResources (outcome.flatMap (·.resources)) ∧
      ∀ s : Place, s.outcome = outcome → s.owner.values = s.earlier ++ s.value :: s.later →
        s.value.value.form = .fileReference →
        ∃ file, s.value.file? = some file ∧ s.Kept disk c file := by
  obtain ⟨outcome, reserved, final, hsources, hsound, huses, hstores, rfl⟩ :=
    Target.assemble_eq_ok h
  refine ⟨outcome, hsources, hsound, rfl, fun s houtcome hvalues hform => ?_⟩
  have hample : Assembly.Ample reserved := by
    intro code hmax
    obtain ⟨o, ho, -, hid⟩ := (huses _ _).mp hmax
    have hlt := hids o.source (hsources ▸ List.mem_map_of_mem ho)
    exact Int64.lt_irrefl (hid ▸ hlt)
  have hall := houtcome ▸ Place.values_eq hvalues
  have howned := hsound s.owner (houtcome ▸ List.mem_append_right _ List.mem_cons_self)
  rw [hall] at hstores
  obtain ⟨r₁, hbefore, hrest⟩ := hstores.split
  cases hrest with
  | @cons _ r₂ _ _ _ head tail =>
    obtain ⟨file, himports⟩ := head.imports (hbefore.ample hample) hform
    have hused {code : String} {id : Int64} : r₁.Uses code id ↔
        Declared s.outcome code id ∨ Imported (importedBy s.before) code id := by
      rw [hbefore.uses, huses, houtcome]
    have howner : s.value.owner = s.owner.source.id :=
      howned.owners _ (hvalues ▸ List.mem_append_right _ List.mem_cons_self)
    have hfree := himports.free
    rw [hused, not_or] at hfree
    have hafter : ¬Imported (importedBy s.after) file.typeCode file.id := by
      rintro ⟨other, hother, hcode, hid⟩
      have hfresh := tail.fresh (head.ample (hbefore.ample hample)).spare other hother
      rw [head.uses, himports.file_eq, hcode, hid] at hfresh
      exact hfresh (.inr ⟨file, List.mem_singleton_self _, rfl, rfl⟩)
    have hfiles : importedBy (outcome.flatMap (·.values)) =
        importedBy s.before ++ file :: importedBy s.after := by
      rw [hall, importedBy, List.filterMap_append, List.filterMap_cons_some himports.file_eq]
      rfl
    exact ⟨file, himports.file_eq,
      { code := himports.code
        contents := himports.read
        resource := filter_resources_of_import hfiles (houtcome ▸ hfree.1) hfree.2 hafter
        word := himports.word
        read_back := howned.read_back hvalues himports.word
        undeclared := hfree.1
        unique := imported_append.not.mpr (not_or.mpr ⟨hfree.2, hafter⟩)
        from_owner := howner ▸ himports.from_owner
        between := fun id hlow hhigh => hused.mp (himports.between id (howner ▸ hlow) hhigh) }⟩

/-! A run -/

/-- A type that refers to a resource by its id, and a type of the code that text files get. -/
def cardType : Schema :=
  ⟨"Card", "CARD", [⟨"text", true, "", [⟨"id", .resourceReference, 0, 2, [], none⟩]⟩], [], .unknown⟩

def noteType : Schema :=
  ⟨"Note", "TEXT", [⟨"mark", false, "", [⟨"x", .integer 1 false, 0, 1, [], none⟩]⟩], [], .unknown⟩

def cardTypes : Registry :=
  ([cardType, noteType].foldlM Registry.register .empty).toOption.getD .empty

def cardDisk : FileSystem := (FileSystem.fresh []).put ["a.txt"] (.file (bytesOf [104, 105]))

def cardText : Value := ⟨.fileReference, "a.txt", ⟨"main.kdl", 3⟩⟩

def card : Instance := ⟨"Card", 5, "", [⟨"text", [cardText], .unknown⟩], .unknown⟩

def note : Instance := ⟨"Note", 5, "", [], .unknown⟩

def cardContainer : Except CompileError Container :=
  (Target.assemble cardDisk cardTypes [card, note] (.start #[])).1

/-- The card's text does not get the id 5, which the note that comes later has under its code. -/
theorem file_references_kept_card :
    ∃ c, cardContainer = .ok c ∧
      (c.resources.map fun e => (e.1, e.2.id, e.2.data.data.toList)) =
        [("CARD", 5, [0, 6]), ("TEXT", 6, [104, 105]), ("TEXT", 5, [0])] ∧
      ∃ (s : Place) (file : ImportedFile), s.owner.source = card ∧ s.value.value = cardText ∧
        s.Kept cardDisk c file := by
  have hresources : (cardContainer.toOption.map fun c => c.resources.map fun e =>
      (e.1, e.2.id, e.2.data.data.toList)) =
        some [("CARD", 5, [0, 6]), ("TEXT", 6, [104, 105]), ("TEXT", 5, [0])] := by cbv
  cases hrun : cardContainer with
  | error e =>
    rw [hrun] at hresources
    cases hresources
  | ok c =>
    rw [hrun] at hresources
    refine ⟨c, rfl, Option.some.inj hresources, ?_⟩
    have hids : ∀ i ∈ [card, note], i.id < Int64.maxValue := by decide +kernel
    obtain ⟨outcome, hsources, hsound, -, hkept⟩ :=
      file_references_kept cardDisk cardTypes [card, note] #[] c _ hids (Prod.ext hrun rfl)
    obtain ⟨o, rest, rfl, ho, -⟩ := List.map_eq_cons_iff.mp hsources
    have hs := hsound o List.mem_cons_self
    have hfound : cardTypes.lookup o.source.typeName o.source.location = .ok cardType := by
      rw [ho]
      cbv
    have hschema : cardType = o.schema := Except.ok.inj (hfound.symm.trans hs.schema_eq)
    have hentries : o.values.map StoredValue.entry =
        [(⟨"id", .resourceReference, 0, 2, [], none⟩, cardText)] := by
      rw [hs.entries, ← hschema, ho]
      decide +kernel
    obtain ⟨v, hvalues, hv⟩ := List.map_eq_singleton_iff.mp hentries
    have hvalue : v.value = cardText := congrArg Prod.snd hv
    obtain ⟨file, -, hfile⟩ := hkept ⟨[], o, rest, [], v, []⟩ rfl hvalues (hvalue ▸ rfl)
    exact ⟨_, file, ho, hvalue, hfile⟩

end ResourceCompiler

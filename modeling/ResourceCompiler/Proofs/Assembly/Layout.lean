import ResourceCompiler.Proofs.Assembly.Storing
import ResourceCompiler.Proofs.Container.Slices

/-!
The layout of an assembled blob. If no two slots share a byte, the order in which they are written
does not matter: every slot keeps what was stored in it, and zeros are everywhere else.
-/

namespace ResourceCompiler

namespace Slot

def Covers (slot : Slot) (p : Nat) : Prop := slot.offset ≤ p ∧ p < slot.limit

/-- Two slots that share no byte. -/
def Apart (a b : Slot) : Prop := a.limit ≤ b.offset ∨ b.limit ≤ a.offset

/-- A writing that begins with the slot and ends in it. -/
def Encloses (slot : Slot) (w : Writing) : Prop :=
  w.position = slot.offset ∧ w.limit ≤ slot.limit

theorem Encloses.silent {slot : Slot} {w : Writing} (h : slot.Encloses w) {p : Nat}
    (hp : ¬slot.Covers p) : w.byte? p = none := by
  obtain ⟨hposition, hlimit⟩ := h
  unfold Covers at hp
  exact Writing.byte_eq_none (by omega)

theorem Apart.not_covers {a b : Slot} (h : a.Apart b) {p : Nat} (hp : a.Covers p) :
    ¬b.Covers p := by
  unfold Apart Covers at *
  omega

/-- In the region of a slot stands a value and behind it nothing but zeros. -/
def HoldsValue (slot : Slot) (value : Value) (imported : Int64) (file : List UInt8) : Prop :=
  ∃ bytes, slot.Encodes value imported bytes ∧
    slice? file slot.offset slot.size = some (bytes ++ List.replicate (slot.size - bytes.length) 0)

/-- A slot that is proper, and large enough for a value of this form. -/
def Takes (slot : Slot) (form : ValueForm) : Prop := slot.Shaped ∧ form.FitsSize slot.size

end Slot

/-- Every slot's region holds its value, or zeros if there is none. The file references among the
values hold the ids of some files, in order, each of which was imported for its reference. -/
inductive Filled (disk : FileSystem) (id : Int64) (file : List UInt8) :
    List (Slot × Option Value) → List ImportedFile → Prop
  | nil : Filled disk id file [] []
  | empty {slot : Slot} {rest : List (Slot × Option Value)} {files : List ImportedFile}
    (hregion : slice? file slot.offset slot.size = some (List.replicate slot.size 0))
    (hrest : Filled disk id file rest files) : Filled disk id file ((slot, none) :: rest) files
  | plain {slot : Slot} {value : Value} {rest : List (Slot × Option Value)}
    {files : List ImportedFile} (hform : value.form ≠ .fileReference)
    (hregion : slot.HoldsValue value 0 file) (hrest : Filled disk id file rest files) :
    Filled disk id file ((slot, some value) :: rest) files
  | reference {slot : Slot} {value : Value} {rest : List (Slot × Option Value)}
    {r r' : Resolver} {imported : ImportedFile} {files : List ImportedFile}
    (hform : value.form = .fileReference)
    (hfile : Resolver.resolve disk value.text id value.location r = (.ok imported, r'))
    (hregion : slot.HoldsValue value imported.id file) (hrest : Filled disk id file rest files) :
    Filled disk id file ((slot, some value) :: rest) (imported :: files)

namespace Assembly

variable {disk : FileSystem} {r r' : Resolver}

theorem Stored.encloses {v : StoredValue} (h : Stored disk r v r')
    (ht : v.slot.Takes v.value.form) : v.slot.Encloses v.writing := by
  cases h with
  | plain _ hbytes => exact ⟨rfl, Nat.add_le_add_left (ht.1.length_le ht.2 hbytes) _⟩
  | reference _ _ hbytes => exact ⟨rfl, Nat.add_le_add_left (ht.1.length_le ht.2 hbytes) _⟩

theorem Stores.encloses {values : List StoredValue} (h : Stores disk r values r')
    (ht : ∀ v ∈ values, v.slot.Takes v.value.form) : ∀ v ∈ values, v.slot.Encloses v.writing := by
  induction h with
  | nil => simp
  | cons head _ ih =>
    rw [List.forall_mem_cons] at ht ⊢
    exact ⟨head.encloses ht.1, ih ht.2⟩

end Assembly

theorem mem_of_mem_valued {contents : List (Slot × Option Value)} {entry : Slot × Value}
    (h : entry ∈ valued contents) : (entry.1, some entry.2) ∈ contents := by
  obtain ⟨⟨slot, value?⟩, hmem, hentry⟩ := List.mem_flatMap.mp h
  cases value? with
  | none => simp at hentry
  | some value =>
    simp only [Option.map_some, Option.toList_some, List.mem_singleton] at hentry
    rwa [hentry]

/-- What writings leave in the region of a slot is read there. -/
theorem slice_of_shown {file region : List UInt8} {slot : Slot} {ws : List Writing}
    (hin : slot.limit ≤ file.length) (hlength : region.length = slot.size)
    (hshown : ∀ p, slot.Covers p → (file[p]?).getD 0 = shown ws p)
    (hregion : ∀ k (hk : k < region.length), shown ws (slot.offset + k) = region[k]) :
    slice? file slot.offset slot.size = some region := by
  rw [← hlength]
  refine slice_of_bytes (by rwa [hlength]) fun k hk => ?_
  rw [hshown _ ⟨Nat.le_add_right .., Nat.add_lt_add_left (hlength ▸ hk) _⟩, hregion k hk]

/-- A value that was the only writing in its slot is held there. -/
theorem Slot.Takes.holds_value {file : List UInt8} {slot : Slot} {value : Value} {imported : Int64}
    {bytes : List UInt8} {ws : List Writing} (ht : slot.Takes value.form)
    (he : slot.Encodes value imported bytes) (hin : slot.limit ≤ file.length)
    (hothers : ∀ w ∈ ws, ∀ p, slot.Covers p → w.byte? p = none)
    (hshown : ∀ p, slot.Covers p → (file[p]?).getD 0 = shown (⟨slot.offset, bytes⟩ :: ws) p) :
    slot.HoldsValue value imported file := by
  have hle := ht.1.length_le ht.2 he
  have hlength : (bytes ++ List.replicate (slot.size - bytes.length) 0).length = slot.size := by
    rw [List.length_append, List.length_replicate]
    omega
  refine ⟨bytes, he, slice_of_shown hin hlength hshown fun k hk => ?_⟩
  have hcovers : slot.Covers (slot.offset + k) :=
    ⟨Nat.le_add_right .., Nat.add_lt_add_left (by omega) _⟩
  rw [← List.singleton_append, shown_append_untouched fun w hw => hothers w hw _ hcovers]
  change ((Writing.mk slot.offset bytes).byte? (slot.offset + k)).getD 0 = _
  by_cases hk' : k < bytes.length
  · rw [Writing.byte_get hk', List.getElem_append_left hk', Option.getD_some]
  · rw [Writing.byte_eq_none (.inr (Nat.add_le_add_left (Nat.not_lt.mp hk') _)),
      List.getElem_append_right (Nat.not_lt.mp hk'), List.getElem_replicate, Option.getD_none]

/-- Slot by slot: writings in slots behind the first never reach the first, so its region shows
the first writing alone, and theirs show what the others leave. -/
theorem Assembly.Stores.filled {disk : FileSystem} {id : Int64} {file : List UInt8}
    {contents : List (Slot × Option Value)} {r r' : Resolver} {values : List StoredValue}
    (hentries : values.map StoredValue.entry = valued contents)
    (howners : ∀ v ∈ values, v.owner = id) (hstores : Stores disk r values r')
    (ht : ∀ v ∈ values, v.slot.Takes v.value.form)
    (hin : ∀ slot ∈ contents.map (·.1), slot.limit ≤ file.length)
    (hapart : (contents.map (·.1)).Pairwise Slot.Apart)
    (hshown : ∀ slot ∈ contents.map (·.1), ∀ p, slot.Covers p →
      (file[p]?).getD 0 = shown (values.map StoredValue.writing) p) :
    Filled disk id file contents (values.filterMap StoredValue.file?) := by
  induction contents generalizing r values with
  | nil =>
    obtain rfl := List.map_eq_nil_iff.mp hentries
    exact .nil
  | cons content rest ih =>
    obtain ⟨slot, value?⟩ := content
    rw [List.map_cons, List.forall_mem_cons] at hin hshown
    rw [List.map_cons, List.pairwise_cons] at hapart
    have hothers {values : List StoredValue} {r : Resolver}
        (hentries : values.map StoredValue.entry = valued rest)
        (hstores : Stores disk r values r') (ht : ∀ v ∈ values, v.slot.Takes v.value.form) :
        ∀ w ∈ values.map StoredValue.writing, ∀ p, slot.Covers p → w.byte? p = none := by
      refine List.forall_mem_map.mpr fun v hv p hp => ?_
      have hmem : v.slot ∈ rest.map (·.1) := List.mem_map.mpr
        ⟨_, mem_of_mem_valued (hentries ▸ List.mem_map_of_mem hv), rfl⟩
      exact (hstores.encloses ht v hv).silent ((hapart.1 _ hmem).not_covers hp)
    cases value? with
    | none =>
      have hothers := hothers hentries hstores ht
      refine .empty ?_ (ih hentries howners hstores ht hin.2 hapart.2 hshown.2)
      refine slice_of_shown hin.1 List.length_replicate hshown.1 fun k hk => ?_
      rw [List.length_replicate] at hk
      rw [List.getElem_replicate]
      exact shown_untouched fun w hw => hothers w hw _
        ⟨Nat.le_add_right .., Nat.add_lt_add_left hk _⟩
    | some value =>
      obtain ⟨v, others, rfl, hv, hentries⟩ := List.map_eq_cons_iff.mp hentries
      rw [List.forall_mem_cons] at ht howners
      cases hstores with
      | cons head tail =>
        have hrest := ih hentries howners.2 tail ht.2 hin.2 hapart.2 fun s hs p hp =>
          (hshown.2 s hs p hp).trans (shown_cons ((head.encloses ht.1).silent fun hslot =>
            (hapart.1 s hs).not_covers (Prod.ext_iff.mp hv |>.1 ▸ hslot) hp))
        have hothers := hothers hentries tail ht.2
        cases head with
        | plain hform hbytes =>
          cases hv
          exact .plain hform (ht.1.holds_value hbytes hin.1 hothers hshown.1) hrest
        | reference hform hfile hbytes =>
          cases hv
          obtain rfl := howners.1
          exact .reference hform hfile (ht.1.holds_value hbytes hin.1 hothers hshown.1) hrest

/-! The whole blob -/

/-- A schema whose slots have the shapes that a definition gives them and share no byte. Each is
large enough for its default, as it is if it permits it, and ends where a buffer can hold its
bytes. -/
structure Schema.LaidOut (schema : Schema) : Prop where
  shaped : ∀ f ∈ schema.fields, ∀ slot ∈ f.slots, slot.Shaped
  roomy : ∀ f ∈ schema.fields, ∀ slot ∈ f.slots, ∀ value ∈ slot.default,
    value.form.FitsSize slot.size
  apart : (schema.fields.flatMap (·.slots)).Pairwise Slot.Apart
  reach : ∀ f ∈ schema.fields, ∀ slot ∈ f.slots, slot.InReach

instance (a b : Slot) : Decidable (a.Apart b) :=
  inferInstanceAs (Decidable (a.limit ≤ b.offset ∨ b.limit ≤ a.offset))

instance (schema : Schema) : Decidable schema.LaidOut :=
  decidable_of_iff ((∀ f ∈ schema.fields, ∀ slot ∈ f.slots, slot.Shaped) ∧
    (∀ f ∈ schema.fields, ∀ slot ∈ f.slots, ∀ value ∈ slot.default,
      value.form.FitsSize slot.size) ∧
    (schema.fields.flatMap (·.slots)).Pairwise Slot.Apart ∧
    ∀ f ∈ schema.fields, ∀ slot ∈ f.slots, slot.InReach)
    ⟨fun ⟨shaped, roomy, apart, reach⟩ => ⟨shaped, roomy, apart, reach⟩,
      fun h => ⟨h.shaped, h.roomy, h.apart, h.reach⟩⟩

theorem Instance.Suits.contents_slots {i : Instance} {f : Field} (h : i.Suits f) :
    (i.contents f).map (·.1) = f.slots := by
  unfold contents
  split
  · rename_i assignment ha
    obtain ⟨hcount, -⟩ := h assignment ha
    exact List.map_fst_zip (Nat.le_of_eq ((List.length_map ..).trans hcount).symm)
  · rw [List.map_map]
    exact List.map_id _

namespace Schema.LaidOut

variable {schema : Schema} {i : Instance}

/-- Whether it is assigned or a default, a value finds the room that it needs. -/
theorem takes (hl : schema.LaidOut) {f : Field} (hf : f ∈ schema.fields) (h : i.Suits f)
    {entry : Slot × Value} (he : entry ∈ valued (i.contents f)) :
    entry.1.Takes entry.2.form := by
  cases ha : i.assignment? f.name with
  | some assignment =>
    rw [Instance.valued_contents_assigned ha] at he
    have hshaped := hl.shaped f hf _ (List.of_mem_zip he).1
    exact ⟨hshaped, hshaped.has_room ((h assignment ha).2 entry he)⟩
  | none =>
    obtain ⟨hslot, hdefault⟩ := (Instance.mem_valued_contents_unassigned ha).mp he
    exact ⟨hl.shaped f hf _ hslot, hl.roomy f hf _ hslot _ hdefault⟩

end Schema.LaidOut

theorem limit_le_required_size {schema : Schema} {f : Field} (hf : f ∈ schema.fields) {slot : Slot}
    (hs : slot ∈ f.slots) : slot.limit ≤ schema.requiredSize :=
  Nat.le_trans (covering_size_le.mp (Nat.le_refl f.requiredSize) _ (List.mem_map_of_mem hs))
    (covering_size_le.mp (Nat.le_refl schema.requiredSize) _ (List.mem_map_of_mem hf))

/-- Writings that end inside the room do not make a buffer larger. -/
theorem Buffer.Shows.size_eq_room {b : Buffer} {room : Nat} {ws : List Writing}
    (h : b.Shows room ws) (hin : ∀ w ∈ ws, w.limit ≤ room) : b.size = room := by
  have hmax : ∀ {ns : List Nat}, (∀ n ∈ ns, n ≤ room) → ns.foldl max room = room := by
    intro ns hns
    induction ns with
    | nil => rfl
    | cons n rest ih =>
      rw [List.forall_mem_cons] at hns
      rw [List.foldl_cons, Nat.max_eq_left hns.1, ih hns.2]
  rw [h.size, hmax (List.forall_mem_map.mpr hin)]

/-- An assembled blob has the size that its type requires, which is the one that is computed for it.
The region of every slot holds the value that the instance has for it, or zeros where it has none;
no other byte is set. -/
theorem assembled_layout (disk : FileSystem) (schema : Schema) (i : Instance)
    (before after : Assembly) (blob : ByteArray) (hl : schema.LaidOut)
    (h : Assembly.encode disk schema i before = (.ok blob, after)) :
    blob.size = schema.requiredSize ∧ schema.checkedSize = .ok blob.size ∧
      (∀ f ∈ schema.fields, i.Suits f) ∧
      (∃ files, after.imports = before.imports ++ files ∧
        Filled disk i.id blob.data.toList (schema.fields.flatMap i.contents) files) ∧
      ∀ p < blob.size, (∀ f ∈ schema.fields, ∀ slot ∈ f.slots, ¬slot.Covers p) →
        blob.data.toList[p]? = some 0 := by
  obtain ⟨hsuits, b, values, rfl, hshows, hentries, howners, hstores, himports⟩ :=
    Assembly.encode_eq_ok h
  have hslots : (schema.fields.flatMap i.contents).map (·.1) = schema.fields.flatMap (·.slots) := by
    rw [List.map_flatMap]
    exact List.flatMap_congr fun f hf => (hsuits f hf).contents_slots
  have hfield : ∀ v ∈ values, ∃ f ∈ schema.fields, v.entry ∈ valued (i.contents f) := by
    intro v hv
    have hmem := hentries ▸ List.mem_map_of_mem hv
    rwa [valued, List.flatMap_assoc, List.mem_flatMap] at hmem
  have htakes : ∀ v ∈ values, v.slot.Takes v.value.form := by
    intro v hv
    obtain ⟨f, hf, hmem⟩ := hfield v hv
    exact hl.takes hf (hsuits f hf) hmem
  have hencloses : ∀ w ∈ values.map StoredValue.writing,
      ∃ f ∈ schema.fields, ∃ slot ∈ f.slots, slot.Encloses w := by
    refine List.forall_mem_map.mpr fun v hv => ?_
    obtain ⟨f, hf, hmem⟩ := hfield v hv
    have hslot : v.slot ∈ f.slots :=
      (hsuits f hf).contents_slots ▸ List.mem_map_of_mem (mem_of_mem_valued hmem)
    exact ⟨f, hf, v.slot, hslot, hstores.encloses htakes v hv⟩
  have hsize : b.size = schema.requiredSize := hshows.size_eq_room fun w hw => by
    obtain ⟨f, hf, slot, hmem, hw⟩ := hencloses w hw
    exact Nat.le_trans hw.2 (limit_le_required_size hf hmem)
  have hlength : b.bytes.data.toList.length = schema.requiredSize := b.size_eq.symm.trans hsize
  have hchecked : schema.checkedSize = .ok b.bytes.size := by
    rw [Schema.checked_size_of_reach hl.reach, ← hsize]
    rfl
  refine ⟨hsize, hchecked, hsuits, ⟨_, himports, ?_⟩, fun p hp huncovered => ?_⟩
  · refine hstores.filled hentries howners htakes (fun slot hmem => ?_) ?_
      fun slot hmem p hp => hshows.bytes p
    · rw [hslots, List.mem_flatMap] at hmem
      obtain ⟨f, hf, hmem⟩ := hmem
      exact hlength.symm ▸ limit_le_required_size hf hmem
    · rw [hslots]
      exact hl.apart
  · have hzero : b.byteAt p = 0 := (hshows.bytes p).trans <| shown_untouched fun w hw => by
      obtain ⟨f, hf, slot, hmem, hw⟩ := hencloses w hw
      exact hw.silent (huncovered f hf slot hmem)
    have hlt : p < b.bytes.data.toList.length := by
      rw [hlength, ← hsize]
      exact hp
    rw [Buffer.byteAt, List.getElem?_eq_getElem hlt, Option.getD_some] at hzero
    rw [List.getElem?_eq_getElem hlt, hzero]

/-! Runs -/

/-- A type whose fields are not in the order of their offsets, with a gap before the last one. -/
def windowType : Schema :=
  ⟨"Window", "WIND",
    [⟨"title", true, "", [⟨"text", .pascalString, 4, 6, [], none⟩]⟩,
      ⟨"place", true, "", [⟨"left", .integer 2 true, 0, 2, [], none⟩,
        ⟨"top", .integer 2 true, 2, 2, [⟨"below", 300⟩], none⟩]⟩,
      ⟨"tint", false, "", [⟨"color", .color, 12, 4, [], some ⟨.color, "255", .unknown⟩⟩]⟩],
    [], .unknown⟩

def window : Instance :=
  ⟨"Window", 128, "",
    [⟨"place", [⟨.integer, "-1", .unknown⟩, ⟨.identifier, "below", .unknown⟩], .unknown⟩,
      ⟨"title", [⟨.string, "Hi", .unknown⟩], .unknown⟩], .unknown⟩

/-- The blob of an instance, if it can be assembled from a fresh start. -/
def blobOf (schema : Schema) (i : Instance) : Option ByteArray :=
  (Assembly.encode (.fresh []) schema i (.start #[])).1.toOption

theorem blob_of_eq_some {schema : Schema} {i : Instance} {blob : ByteArray} :
    blobOf schema i = some blob ↔
      (Assembly.encode (.fresh []) schema i (.start #[])).1 = .ok blob := by
  unfold blobOf
  cases (Assembly.encode (.fresh []) schema i (.start #[])).1 <;> simp [Except.toOption]

theorem assembled_layout_window :
    windowType.LaidOut ∧ ∃ blob files, blobOf windowType window = some blob ∧
      blob.data.toList = [255, 255, 1, 44, 2, 72, 105, 0, 0, 0, 0, 0, 0, 0, 0, 255] ∧
      Filled (.fresh []) 128 blob.data.toList (windowType.fields.flatMap window.contents)
        files := by
  have hl : windowType.LaidOut := by decide +kernel
  have hbytes : (blobOf windowType window).map (·.data.toList) =
      some [255, 255, 1, 44, 2, 72, 105, 0, 0, 0, 0, 0, 0, 0, 0, 255] := by decide +kernel
  obtain ⟨blob, hblob, hlist⟩ := Option.map_eq_some_iff.mp hbytes
  have hrun : Assembly.encode (.fresh []) windowType window (.start #[]) =
      (.ok blob, (Assembly.encode (.fresh []) windowType window (.start #[])).2) :=
    Prod.ext (blob_of_eq_some.mp hblob) rfl
  obtain ⟨-, -, -, ⟨files, -, hfilled⟩, -⟩ := assembled_layout _ _ _ _ _ _ hl hrun
  exact ⟨hl, blob, files, hblob, hlist, hfilled⟩

/-- Two slots of one byte, the first with a default that takes two and is not checked again. -/
def tightType : Schema :=
  ⟨"Tight", "TGHT",
    [⟨"second", false, "", [⟨"x", .integer 1 false, 1, 1, [], none⟩]⟩,
      ⟨"first", false, "", [⟨"x", .integer 1 false, 0, 1, [], some ⟨.resourceId, "0", .unknown⟩⟩]⟩],
    [], .unknown⟩

def tight : Instance :=
  ⟨"Tight", 1, "", [⟨"second", [⟨.integer, "7", .unknown⟩], .unknown⟩], .unknown⟩

/-- Slots of proper shapes that share no byte do not suffice: a default that its slot does not
permit can be too large for it, and overwrites the value in the slot behind. -/
theorem default_overwrites_value :
    (∀ f ∈ tightType.fields, ∀ slot ∈ f.slots, slot.Shaped ∧ slot.InReach) ∧
      (tightType.fields.flatMap (·.slots)).Pairwise Slot.Apart ∧
      (blobOf tightType tight).map (·.data.toList) = some [0, 0] ∧
      ∀ files, ¬Filled (.fresh []) 1 [0, 0] (tightType.fields.flatMap tight.contents) files := by
  refine ⟨by decide +kernel, by decide +kernel, by decide +kernel, fun files h => ?_⟩
  rw [show tightType.fields.flatMap tight.contents =
    [(⟨"x", .integer 1 false, 1, 1, [], none⟩, some ⟨.integer, "7", .unknown⟩),
      (⟨"x", .integer 1 false, 0, 1, [], some ⟨.resourceId, "0", .unknown⟩⟩,
        some ⟨.resourceId, "0", .unknown⟩)] by decide +kernel] at h
  cases h with
  | reference hform => cases hform
  | plain _ hregion =>
    obtain ⟨bytes, ⟨n, hn, -, -, -, rfl⟩, hslice⟩ := hregion
    have hseven : Text.parseInteger "7" = some 7 := by decide +kernel
    obtain rfl := Option.some.inj (hseven.symm.trans hn)
    exact absurd hslice (by decide +kernel)

end ResourceCompiler

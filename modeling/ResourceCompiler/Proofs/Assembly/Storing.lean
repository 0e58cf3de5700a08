import ResourceCompiler.Assembly.Basic
import ResourceCompiler.Proofs.Assembly.Encoding
import ResourceCompiler.Proofs.Binary.Writings
import ResourceCompiler.Proofs.Schema.Sizes

/-!
What assembling an instance does, part by part. Every value that is stored is one writing at the
offset of its slot, in the order of the fields and of their slots; a file reference imports its
file on the way.
-/

namespace ResourceCompiler

/-- A value as it was stored: for the instance of this id, in its slot, as these bytes, and with the
file that was imported if it is a file reference. -/
structure StoredValue where
  owner : Int64
  slot : Slot
  value : Value
  bytes : List UInt8
  file? : Option ImportedFile

namespace StoredValue

def entry (v : StoredValue) : Slot × Value := (v.slot, v.value)

def writing (v : StoredValue) : Writing := ⟨v.slot.offset, v.bytes⟩

end StoredValue

namespace Assembly

variable {disk : FileSystem} {id : Int64}

/-- Storing a value in its slot, from one state of the resolver to the next. The file of a file
reference is resolved first, and its id is what is written. -/
inductive Stored (disk : FileSystem) : Resolver → StoredValue → Resolver → Prop
  | plain {owner : Int64} {slot : Slot} {value : Value} {r : Resolver} {bytes : List UInt8}
    (hform : value.form ≠ .fileReference) (hbytes : slot.Encodes value 0 bytes) :
    Stored disk r ⟨owner, slot, value, bytes, none⟩ r
  | reference {owner : Int64} {slot : Slot} {value : Value} {r r' : Resolver} {bytes : List UInt8}
    {file : ImportedFile} (hform : value.form = .fileReference)
    (hfile : Resolver.resolve disk value.text owner value.location r = (.ok file, r'))
    (hbytes : slot.Encodes value file.id bytes) :
    Stored disk r ⟨owner, slot, value, bytes, some file⟩ r'

/-- Storing several values one after the other. -/
inductive Stores (disk : FileSystem) : Resolver → List StoredValue → Resolver → Prop
  | nil {r : Resolver} : Stores disk r [] r
  | cons {r r₁ r₂ : Resolver} {v : StoredValue} {rest : List StoredValue}
    (head : Stored disk r v r₁) (tail : Stores disk r₁ rest r₂) : Stores disk r (v :: rest) r₂

theorem Stores.append {r r₁ r₂ : Resolver} {xs ys : List StoredValue}
    (h : Stores disk r xs r₁) (h' : Stores disk r₁ ys r₂) : Stores disk r (xs ++ ys) r₂ := by
  induction h with
  | nil => exact h'
  | cons head _ ih => exact .cons head (ih h')

/-- A part of assembling that has succeeded: it stored some values and made some room, and
recorded the files that it imported behind those before. -/
structure Part (disk : FileSystem) (id : Int64) (entries : List (Slot × Value)) (room : Nat)
    (values : List StoredValue) (blob : Buffer) (before : Assembly) (blob' : Buffer)
    (after : Assembly) : Prop where
  entries : values.map StoredValue.entry = entries
  owners : ∀ v ∈ values, v.owner = id
  stores : Stores disk before.resolver values after.resolver
  imports : after.imports = before.imports ++ values.filterMap StoredValue.file?
  order : blob'.order = .big
  shows {size : Nat} {earlier : List Writing} : blob.Shows size earlier →
    blob'.Shows (max size room) (earlier ++ values.map StoredValue.writing)

namespace Part

variable {b b₁ b₂ : Buffer} {a a₁ a₂ : Assembly} {xs ys : List (Slot × Value)}
  {room more : Nat} {values others : List StoredValue}

theorem nothing (hb : b.order = .big) : Part disk id [] 0 [] b a b a where
  entries := rfl
  owners := by simp
  stores := .nil
  imports := (List.append_nil _).symm
  order := hb
  shows h := by rwa [Nat.max_zero, List.map_nil, List.append_nil]

theorem append (h : Part disk id xs room values b a b₁ a₁)
    (h' : Part disk id ys more others b₁ a₁ b₂ a₂) :
    Part disk id (xs ++ ys) (max room more) (values ++ others) b a b₂ a₂ where
  entries := by rw [List.map_append, h.entries, h'.entries]
  owners := List.forall_mem_append.mpr ⟨h.owners, h'.owners⟩
  stores := h.stores.append h'.stores
  imports := by rw [h'.imports, h.imports, List.filterMap_append, List.append_assoc]
  order := h'.order
  shows hs := by
    rw [← Nat.max_assoc, List.map_append, ← List.append_assoc]
    exact h'.shows (h.shows hs)

end Part

variable {b b' : Buffer} {before after : Assembly} {slot : Slot} {value : Value}

theorem resolve_eq_ok {a a' : Assembly} {file : ImportedFile} :
    resolve disk value id a = (.ok file, a') ↔
      ∃ r', Resolver.resolve disk value.text id value.location a.resolver = (.ok file, r') ∧
        a' = { a with resolver := r' } := by
  unfold resolve
  rcases Resolver.resolve disk value.text id value.location a.resolver with ⟨result, r'⟩
  simp [eq_comm]

theorem encode_value_plain (hform : value.form ≠ .fileReference) :
    encodeValue disk id b slot value = Attempt.lift (placeValue b slot value 0) := by
  unfold encodeValue
  cases hf : value.form <;> first | rfl | exact absurd hf hform

theorem place_value_eq_ok {imported : Int64} : placeValue b slot value imported = .ok b' ↔
    Blob.writeValue (b.seek slot.offset) slot value imported = .ok b' ∧
      b'.cursor ≤ Buffer.maxSize := by
  unfold placeValue
  simp only [except_bind_eq_ok, Buffer.check_size_eq_ok]
  constructor
  · rintro ⟨_, hwrite, _, hroom, hresult⟩
    cases hresult
    exact ⟨hwrite, hroom⟩
  · rintro ⟨hwrite, hroom⟩
    exact ⟨b', hwrite, (), hroom, rfl⟩

/-- One value is one writing. -/
theorem encode_value_part (hb : b.order = .big)
    (h : encodeValue disk id b slot value before = (.ok b', after)) :
    ∃ values, Part disk id [(slot, value)] 0 values b before b' after := by
  have hseek : (b.seek slot.offset).order = .big := hb
  have hput (bytes : List UInt8) : ((b.seek slot.offset).put bytes).order = .big :=
    (Buffer.put_spec (b.seek slot.offset) bytes).1.trans hseek
  have hshows (bytes : List UInt8) {size : Nat} {earlier : List Writing}
      (hs : b.Shows size earlier) : ((b.seek slot.offset).put bytes).Shows (max size 0)
        (earlier ++ [⟨slot.offset, bytes⟩]) := by
    rw [Nat.max_zero]
    exact hs.put slot.offset bytes
  by_cases hform : value.form = .fileReference
  · simp only [encodeValue, hform] at h
    obtain ⟨file, a₁, hfile, h⟩ := Attempt.bind_eq_ok.mp h
    obtain ⟨blob, a₂, hblob, h⟩ := Attempt.bind_eq_ok.mp h
    obtain ⟨hplace, rfl⟩ := Attempt.lift_eq_ok.mp hblob
    obtain ⟨bytes, hbytes, rfl⟩ := (Blob.write_value_eq_ok hseek).mp (place_value_eq_ok.mp hplace).1
    rw [Attempt.bind_ok (Attempt.modify_apply ..)] at h
    cases h
    obtain ⟨r', hresolved, rfl⟩ := resolve_eq_ok.mp hfile
    exact ⟨_, rfl, List.forall_mem_singleton.mpr rfl,
      .cons (.reference hform hresolved hbytes) .nil, rfl, hput bytes, hshows bytes⟩
  · rw [encode_value_plain hform] at h
    obtain ⟨hplace, rfl⟩ := Attempt.lift_eq_ok.mp h
    obtain ⟨bytes, hbytes, rfl⟩ := (Blob.write_value_eq_ok hseek).mp (place_value_eq_ok.mp hplace).1
    exact ⟨_, rfl, List.forall_mem_singleton.mpr rfl, .cons (.plain hform hbytes) .nil,
      (List.append_nil _).symm, hput bytes, hshows bytes⟩

/-- Parts one after the other, each of them begun in big-endian order. -/
theorem fold_part {α : Type} {step : Buffer → α → Attempt Assembly Buffer}
    {entries : α → List (Slot × Value)} {room : α → Nat} {xs : List α}
    (hstep : ∀ x ∈ xs, ∀ {b a b' a'}, b.order = .big → step b x a = (.ok b', a') →
      ∃ values, Part disk id (entries x) (room x) values b a b' a')
    (hb : b.order = .big) (h : xs.foldlM step b before = (.ok b', after)) :
    ∃ values, Part disk id (xs.flatMap entries) (coveringSize (xs.map room)) values
      b before b' after := by
  induction xs generalizing b before with
  | nil =>
    cases h
    exact ⟨[], .nothing hb⟩
  | cons x rest ih =>
    rw [List.foldlM_cons] at h
    obtain ⟨b₁, a₁, hx, hrest⟩ := Attempt.bind_eq_ok.mp h
    obtain ⟨values, hpart⟩ := hstep x List.mem_cons_self hb hx
    obtain ⟨others, hparts⟩ :=
      ih (fun y hy => hstep y (List.mem_cons_of_mem _ hy)) hpart.order hrest
    refine ⟨values ++ others, ?_⟩
    rw [List.flatMap_cons, List.map_cons, covering_size_cons]
    exact hpart.append hparts

/-- Every element of a successful pass has had a step that succeeded. -/
theorem forall_of_fold {α : Type} {step : Buffer → α → Attempt Assembly Buffer} {P : α → Prop}
    (hstep : ∀ {b x a b' a'}, step b x a = (.ok b', a') → P x) {xs : List α}
    (h : xs.foldlM step b before = (.ok b', after)) : ∀ x ∈ xs, P x := by
  induction xs generalizing b before with
  | nil => exact fun _ hx => absurd hx List.not_mem_nil
  | cons x rest ih =>
    rw [List.foldlM_cons] at h
    obtain ⟨b₁, a₁, hx, hrest⟩ := Attempt.bind_eq_ok.mp h
    exact List.forall_mem_cons.mpr ⟨hstep hx, ih hrest⟩

end Assembly

/-! Fields -/

namespace Instance

/-- What an instance has for each slot of a field: the value assigned to it, and in a field that
is not assigned the slot's default, if there is one. -/
def contents (i : Instance) (f : Field) : List (Slot × Option Value) :=
  match i.assignment? f.name with
  | some assignment => f.slots.zip (assignment.values.map some)
  | none => f.slots.map fun slot => (slot, slot.default)

/-- An assignment gives a field one value for each slot, of a form that the slot permits. -/
def Suits (i : Instance) (f : Field) : Prop :=
  ∀ assignment, i.assignment? f.name = some assignment →
    assignment.values.length = f.slots.length ∧
      ∀ entry ∈ f.slots.zip assignment.values, entry.1.permits entry.2.form = true

end Instance

/-- The slots that have a value, with it. -/
def valued (contents : List (Slot × Option Value)) : List (Slot × Value) :=
  contents.flatMap fun (slot, value?) => (value?.map (slot, ·)).toList

theorem valued_defaults (slots : List Slot) :
    valued (slots.map fun slot => (slot, slot.default)) =
      slots.flatMap fun slot => (slot.default.map (slot, ·)).toList := by
  rw [valued, List.flatMap_map]

theorem valued_zip (slots : List Slot) (values : List Value) :
    valued (slots.zip (values.map some)) = slots.zip values := by
  induction slots generalizing values with
  | nil => rfl
  | cons slot rest ih =>
    cases values with
    | nil => rfl
    | cons value values => exact congrArg _ (ih values)

namespace Instance

variable {i : Instance} {f : Field}

theorem valued_contents_assigned {a : Assignment} (h : i.assignment? f.name = some a) :
    valued (i.contents f) = f.slots.zip a.values := by
  rw [contents, h, valued_zip]

/-- What a field that is not assigned stores are its defaults. -/
theorem mem_valued_contents_unassigned (h : i.assignment? f.name = none) {slot : Slot}
    {value : Value} :
    (slot, value) ∈ valued (i.contents f) ↔ slot ∈ f.slots ∧ slot.default = some value := by
  rw [contents, h]
  dsimp only
  rw [valued_defaults]
  simp only [List.mem_flatMap, Option.mem_toList, Option.map_eq_some_iff,
    Prod.mk.injEq]
  constructor
  · rintro ⟨_, hslot, _, hdefault, rfl, rfl⟩
    exact ⟨hslot, hdefault⟩
  · exact fun ⟨hslot, hdefault⟩ => ⟨slot, hslot, value, hdefault, rfl, rfl⟩

end Instance

namespace Assembly

variable {disk : FileSystem} {id : Int64} {b b' : Buffer} {before after : Assembly}
  {schema : Schema} {i : Instance} {f : Field}

/-- Values one after the other. -/
theorem fold_values_part {α : Type} {step : Buffer → α → Attempt Assembly Buffer}
    {entries : α → List (Slot × Value)} {xs : List α}
    (hstep : ∀ x ∈ xs, ∀ {b a b' a'}, b.order = .big → step b x a = (.ok b', a') →
      ∃ values, Part disk id (entries x) 0 values b a b' a')
    (hb : b.order = .big) (h : xs.foldlM step b before = (.ok b', after)) :
    ∃ values, Part disk id (xs.flatMap entries) 0 values b before b' after := by
  have hroom : coveringSize (xs.map fun _ => 0) = 0 :=
    Nat.le_zero.mp (covering_size_le.mpr (by simp))
  rw [← hroom]
  exact fold_part hstep hb h

theorem encode_defaults_part {slots : List Slot} (hb : b.order = .big)
    (h : encodeDefaults disk id b slots before = (.ok b', after)) :
    ∃ values, Part disk id (valued (slots.map fun slot => (slot, slot.default))) 0 values
      b before b' after := by
  rw [valued_defaults]
  refine fold_values_part (fun slot _ b a b' a' hb h => ?_) hb h
  cases hd : slot.default with
  | none =>
    simp only [hd] at h
    cases h
    exact ⟨_, .nothing hb⟩
  | some value =>
    simp only [hd] at h
    exact encode_value_part hb h

theorem encode_values_part {field : String} {entries : List (Slot × Value)} (hb : b.order = .big)
    (h : encodeValues disk id field b entries before = (.ok b', after)) :
    ∃ values, Part disk id entries 0 values b before b' after := by
  rw [← List.flatMap_singleton' entries]
  refine fold_values_part (fun entry _ b a b' a' hb h => ?_) hb h
  split at h
  split at h
  · exact encode_value_part hb h
  · cases h

theorem encode_values_permits {field : String} {entries : List (Slot × Value)}
    (h : encodeValues disk id field b entries before = (.ok b', after)) :
    ∀ entry ∈ entries, entry.1.permits entry.2.form = true := by
  refine forall_of_fold (fun {b entry a b' a'} h => ?_) h
  split at h
  split at h
  · assumption
  · cases h

theorem report_deprecated_part (disk : FileSystem) (id : Int64) {location : Location}
    (hb : b.order = .big)
    (h : reportDeprecated schema f location before = (.ok (), after)) :
    Part disk id [] 0 [] b before b after := by
  unfold reportDeprecated at h
  split at h
  · cases h
    exact { (Part.nothing hb : Part disk id [] 0 [] b before b before) with }
  · cases h
    exact .nothing hb

theorem make_room_eq_ok (h : makeRoom f b = .ok b') :
    b' = if b.size < f.requiredSize then b.seekEnd.padTo f.requiredSize else b := by
  obtain ⟨required, hrequired, h⟩ := except_bind_eq_ok.mp h
  obtain ⟨-, rfl⟩ := Field.checked_size_eq_ok.mp hrequired
  split at h
  · obtain ⟨_, -, hresult⟩ := except_bind_eq_ok.mp h
    cases hresult
    rw [if_pos ‹_›]
  · cases h
    rw [if_neg ‹_›]

/-- Before a field is written its room is made. -/
theorem make_room_part (disk : FileSystem) (id : Int64) (hb : b.order = .big)
    (h : Attempt.lift (makeRoom f b) before = (.ok b', after)) :
    Part disk id [] f.requiredSize [] b before b' after := by
  obtain ⟨hroom, rfl⟩ := Attempt.lift_eq_ok.mp h
  obtain rfl := make_room_eq_ok hroom
  refine ⟨rfl, by simp, .nil, (List.append_nil _).symm, ?_, fun hs => ?_⟩
  · split
    · exact (Buffer.order_pad_to ..).trans hb
    · exact hb
  · rw [List.map_nil, List.append_nil]
    exact hs.pad f.requiredSize

theorem encode_field_part (hb : b.order = .big)
    (h : encodeField disk schema i b f before = (.ok b', after)) :
    ∃ values, Part disk i.id (valued (i.contents f)) f.requiredSize values
      b before b' after := by
  obtain ⟨b₁, a₁, hroom, h⟩ := Attempt.bind_eq_ok.mp h
  have hpad := make_room_part disk i.id hb hroom
  unfold Instance.contents
  cases ha : i.assignment? f.name with
  | none =>
    simp only [ha] at h
    obtain ⟨⟨⟩, a₂, hreport, h⟩ := Attempt.bind_eq_ok.mp h
    split at h
    · cases h
    · have hreported := report_deprecated_part disk i.id hpad.order hreport
      obtain ⟨values, hpart⟩ := encode_defaults_part hpad.order h
      have hall := (hpad.append hreported).append hpart
      simp only [Nat.max_zero, List.nil_append] at hall
      exact ⟨values, hall⟩
  | some assignment =>
    simp only [ha] at h
    obtain ⟨⟨⟩, a₂, hreport, h⟩ := Attempt.bind_eq_ok.mp h
    split at h
    · cases h
    · have hreported := report_deprecated_part disk i.id hpad.order hreport
      obtain ⟨values, hpart⟩ := encode_values_part hpad.order h
      have hall := (hpad.append hreported).append hpart
      simp only [Nat.max_zero, List.nil_append] at hall
      rw [← valued_zip] at hall
      exact ⟨values, hall⟩

theorem encode_field_suits (h : encodeField disk schema i b f before = (.ok b', after)) :
    i.Suits f := by
  intro assignment ha
  obtain ⟨b₁, a₁, -, h⟩ := Attempt.bind_eq_ok.mp h
  simp only [ha] at h
  obtain ⟨⟨⟩, a₂, -, h⟩ := Attempt.bind_eq_ok.mp h
  split at h
  · cases h
  · rename_i hcount
    exact ⟨not_not.mp hcount, encode_values_permits h⟩

/-- An instance that is assembled suits the fields of its schema. Its blob shows one writing for
each value, in the room that the fields need. -/
theorem encode_eq_ok {blob : ByteArray} (h : encode disk schema i before = (.ok blob, after)) :
    (∀ f ∈ schema.fields, i.Suits f) ∧
      ∃ (b : Buffer) (values : List StoredValue), blob = b.bytes ∧
        b.Shows schema.requiredSize (values.map StoredValue.writing) ∧
        values.map StoredValue.entry = valued (schema.fields.flatMap i.contents) ∧
        (∀ v ∈ values, v.owner = i.id) ∧ Stores disk before.resolver values after.resolver ∧
        after.imports = before.imports ++ values.filterMap StoredValue.file? := by
  unfold encode at h
  cases hu : i.assignments.find? fun a => (schema.field? a.field).isNone with
  | some unknown =>
    rw [hu] at h
    cases h
  | none =>
    rw [hu] at h
    obtain ⟨b, a₁, hfold, h⟩ := Attempt.bind_eq_ok.mp h
    cases h
    refine ⟨forall_of_fold (P := fun f => i.Suits f) encode_field_suits hfold, ?_⟩
    obtain ⟨values, hpart⟩ := fold_part (fun f _ => fun hb h => encode_field_part hb h) rfl hfold
    have hshows := hpart.shows (Buffer.shows_empty .big)
    rw [Nat.zero_max, List.nil_append] at hshows
    refine ⟨b, values, rfl, hshows, ?_, hpart.owners, hpart.stores, hpart.imports⟩
    rw [valued, List.flatMap_assoc]
    exact hpart.entries

end Assembly

end ResourceCompiler

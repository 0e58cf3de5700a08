import ResourceCompiler.Proofs.Assembly.Fitting
import ResourceCompiler.Proofs.Assembly.Layout

/-!
Which instances are assembled. Of an instance without file references it can be said from its type
alone: exactly those that assign no unknown field, every required one, one value of a permitted form
to each slot, and values that fit.
-/

namespace ResourceCompiler

namespace Attempt

variable {σ α β : Type} {good good' : Prop} {faults : CompileError → Prop}

/-- Whatever the state is, a part succeeds if a condition holds, and else it fails with one of some
errors. -/
def Decides (part : Attempt σ α) (good : Prop) (faults : CompileError → Prop) : Prop :=
  ∀ s, Settles good faults (part s).1

namespace Decides

variable {part first : Attempt σ α} {next : α → Attempt σ β}

theorem succeeds_iff (h : Decides part good faults) (s : σ) :
    (∃ a s', part s = (.ok a, s')) ↔ good := by
  have hs := h s
  rcases hpart : part s with ⟨e | a, s'⟩
  · rw [hpart] at hs
    exact ⟨nofun, fun hgood => absurd hgood hs.1⟩
  · rw [hpart] at hs
    exact ⟨fun _ => hs, fun _ => ⟨a, s', rfl⟩⟩

theorem fault (h : Decides part good faults) {s s' : σ} {e : CompileError}
    (hfails : part s = (.error e, s')) : faults e := by
  have hs := h s
  rw [hfails] at hs
  exact hs.2

theorem iff (h : Decides part good faults) (hiff : good ↔ good') : Decides part good' faults :=
  fun s => (h s).iff hiff

theorem pure (a : α) : Decides (pure a : Attempt σ α) True faults := fun _ => trivial

theorem fail {e : CompileError} (hgood : ¬good) (he : faults e) :
    Decides (.fail e : Attempt σ α) good faults := fun _ => ⟨hgood, he⟩

theorem modify (f : σ → σ) : Decides (.modify f) True faults := fun _ => trivial

theorem lift {r : Except CompileError α} (h : Settles good faults r) :
    Decides (.lift r : Attempt σ α) good faults := by
  intro s
  cases r <;> exact h

theorem bind (hfirst : Decides first good faults) (hnext : ∀ a, Decides (next a) good' faults) :
    Decides (first >>= next) (good ∧ good') faults := by
  intro s
  have hs := hfirst s
  rw [bind_apply]
  rcases hrun : first s with ⟨e | a, s'⟩
  · rw [hrun] at hs
    exact ⟨fun hboth => hs.1 hboth.1, hs.2⟩
  · rw [hrun] at hs
    exact (hnext a s').iff (iff_and_self.mpr fun _ => hs)

/-- A first part that always succeeds leaves the matter to the second. -/
theorem after (hfirst : Decides first True faults) (hnext : ∀ a, Decides (next a) good' faults) :
    Decides (first >>= next) good' faults :=
  (hfirst.bind hnext).iff (by rw [true_and])

/-- All steps of a pass have to succeed. -/
theorem fold {step : β → α → Attempt σ β} {good : α → Prop} {xs : List α}
    (hstep : ∀ x ∈ xs, ∀ b, Decides (step b x) (good x) faults) (b : β) :
    Decides (xs.foldlM step b) (∀ x ∈ xs, good x) faults := by
  induction xs generalizing b with
  | nil => exact (pure b).iff (by simp)
  | cons x rest ih =>
    rw [List.foldlM_cons]
    have hrest := ih fun y hy => hstep y (List.mem_cons_of_mem _ hy)
    exact ((hstep x List.mem_cons_self b).bind hrest).iff List.forall_mem_cons.symm

end Decides

end Attempt

open Attempt (Decides)

namespace Instance

variable {i : Instance} {f : Field}

/-- Whether an instance has what a field needs: it is assigned if it has to be, with values as its
slots want them, and what is stored in it fits. -/
structure Provides (i : Instance) (f : Field) : Prop where
  given : f.required = true → f.name ∈ i.assignments.map Assignment.field
  suits : i.Suits f
  fits : ∀ entry ∈ valued (i.contents f), entry.1.Fits entry.2

/-- The slots of a field and what an instance stores in them end where a buffer can hold it. The
machine's words do not reach further, and no definition is refused for that. -/
structure InReach (i : Instance) (f : Field) : Prop where
  slots : ∀ slot ∈ f.slots, slot.InReach
  texts : ∀ entry ∈ valued (i.contents f), entry.1.TextInReach entry.2

/-- No value that an instance stores in a field is a file reference, be it assigned or a default. -/
def Plain (i : Instance) (f : Field) : Prop :=
  (f.required = true → f.name ∈ i.assignments.map Assignment.field) →
    ∀ entry ∈ valued (i.contents f), entry.2.form ≠ .fileReference

instance (i : Instance) (f : Field) : Decidable (i.Suits f) :=
  inferInstanceAs (Decidable (∀ a ∈ i.assignment? f.name, _ ∧ _))

instance (i : Instance) (f : Field) : Decidable (i.Provides f) :=
  decidable_of_iff ((f.required = true → f.name ∈ i.assignments.map Assignment.field) ∧
    i.Suits f ∧ ∀ entry ∈ valued (i.contents f), entry.1.Fits entry.2)
    ⟨fun ⟨given, suits, fits⟩ => ⟨given, suits, fits⟩, fun h => ⟨h.given, h.suits, h.fits⟩⟩

instance (i : Instance) (f : Field) : Decidable (i.InReach f) :=
  decidable_of_iff ((∀ slot ∈ f.slots, slot.InReach) ∧
    ∀ entry ∈ valued (i.contents f), entry.1.TextInReach entry.2)
    ⟨fun ⟨slots, texts⟩ => ⟨slots, texts⟩, fun h => ⟨h.slots, h.texts⟩⟩

instance (i : Instance) (f : Field) : Decidable (i.Plain f) :=
  inferInstanceAs (Decidable (_ → _))

theorem assigned_of_eq_some {field : String} {a : Assignment}
    (h : i.assignment? field = some a) : field ∈ i.assignments.map Assignment.field :=
  List.mem_map.mpr ⟨a, List.mem_of_find?_eq_some h, by simpa using List.find?_some h⟩

theorem provides_unassigned (h : i.assignment? f.name = none) (hrequired : ¬f.required = true) :
    i.Provides f ↔ ∀ slot ∈ f.slots, ∀ value ∈ slot.default, slot.Fits value := by
  constructor
  · intro hprovides slot hslot value hvalue
    exact hprovides.fits _ ((mem_valued_contents_unassigned h).mpr ⟨hslot, hvalue⟩)
  · intro hfits
    refine ⟨fun hr => absurd hr hrequired, fun a ha => ?_, fun ⟨slot, value⟩ hentry => ?_⟩
    · rw [h] at ha
      cases ha
    · obtain ⟨hslot, hvalue⟩ := (mem_valued_contents_unassigned h).mp hentry
      exact hfits slot hslot value hvalue

theorem provides_assigned {a : Assignment} (h : i.assignment? f.name = some a)
    (hcount : a.values.length = f.slots.length) :
    i.Provides f ↔ ∀ entry ∈ f.slots.zip a.values,
      entry.1.permits entry.2.form = true ∧ entry.1.Fits entry.2 := by
  have hstored := valued_contents_assigned h
  constructor
  · intro hprovides entry hentry
    exact ⟨(hprovides.suits a h).2 entry hentry, hprovides.fits entry (hstored ▸ hentry)⟩
  · intro hall
    refine ⟨fun _ => assigned_of_eq_some h, fun a' ha' => ?_, fun entry hentry => ?_⟩
    · obtain rfl := Option.some.inj (h.symm.trans ha')
      exact ⟨hcount, fun entry hentry => (hall entry hentry).1⟩
    · exact (hall entry (hstored ▸ hentry)).2

end Instance

theorem Schema.field_eq_none {schema : Schema} {name : String} :
    schema.field? name = none ↔ ¬∃ f ∈ schema.fields, f.name = name := by
  simp [field?]

/-- The instances of a type that can be assembled. -/
structure Schema.Accepts (schema : Schema) (i : Instance) : Prop where
  known : ∀ a ∈ i.assignments, ∃ f ∈ schema.fields, f.name = a.field
  provided : ∀ f ∈ schema.fields, i.Provides f

instance (schema : Schema) (i : Instance) : Decidable (schema.Accepts i) :=
  decidable_of_iff ((∀ a ∈ i.assignments, ∃ f ∈ schema.fields, f.name = a.field) ∧
    ∀ f ∈ schema.fields, i.Provides f)
    ⟨fun ⟨known, provided⟩ => ⟨known, provided⟩, fun h => ⟨h.known, h.provided⟩⟩

/-- What can be wrong with an instance. -/
inductive Schema.Rejects (schema : Schema) (i : Instance) : CompileError → Prop
  | unknownField {a : Assignment} (ha : a ∈ i.assignments) (hnone : schema.field? a.field = none) :
    Rejects schema i (.meaning a.location (.unknownField schema.name a.field))
  | missingField {f : Field} (hf : f ∈ schema.fields) (hrequired : f.required = true)
    (hnone : i.assignment? f.name = none) :
    Rejects schema i (.meaning i.location (.missingRequiredField schema.name i.id f.name))
  | valueCount {f : Field} {a : Assignment} (hf : f ∈ schema.fields)
    (ha : i.assignment? f.name = some a) (hcount : a.values.length ≠ f.slots.length) :
    Rejects schema i (.meaning a.location (.valueCount f.name f.slots.length a.values.length))
  | notPermitted {f : Field} {a : Assignment} {slot : Slot} {value : Value}
    (hf : f ∈ schema.fields) (ha : i.assignment? f.name = some a)
    (hentry : (slot, value) ∈ f.slots.zip a.values) (hform : slot.permits value.form = false) :
    Rejects schema i (.meaning value.location
      (.valueNotPermitted value.form value.text slot.kind slot.name f.name))
  | refused {f : Field} {slot : Slot} {value : Value} {e : CompileError} (hf : f ∈ schema.fields)
    (hentry : (slot, value) ∈ valued (i.contents f)) (he : slot.Refuses value e) :
    Rejects schema i e

namespace Assembly

variable {disk : FileSystem} {id : Int64} {b : Buffer} {schema : Schema} {i : Instance} {f : Field}
  {slot : Slot} {value : Value} {faults : CompileError → Prop}

/-- In reach there is always room behind the cursor for what is written. -/
theorem place_value_settles (h : slot.Proper) (hp : slot.permits value.form = true)
    (hplain : value.form ≠ .fileReference) (hslot : slot.InReach)
    (htext : slot.TextInReach value) (imported : Int64) :
    Settles (slot.Fits value) (slot.Refuses value) (placeValue b slot value imported) := by
  have hwritten := Slot.write_value_settles (b := b.seek slot.offset) h hp hplain imported
  cases hw : Blob.writeValue (b.seek slot.offset) slot value imported with
  | error e =>
    rw [hw] at hwritten
    rw [placeValue, hw]
    exact hwritten
  | ok written =>
    rw [hw] at hwritten
    have hroom := (Slot.ends_of_write_value h hp hw).le_max_size hslot htext
    rw [place_value_eq_ok.mpr ⟨hw, hroom⟩]
    exact hwritten

theorem encode_value_decides (disk : FileSystem) (id : Int64) (b : Buffer) (h : slot.Proper)
    (hp : slot.permits value.form = true) (hplain : value.form ≠ .fileReference)
    (hslot : slot.InReach) (htext : slot.TextInReach value)
    (hfaults : ∀ e, slot.Refuses value e → faults e) :
    Decides (encodeValue disk id b slot value) (slot.Fits value) faults := by
  rw [encode_value_plain hplain]
  exact .lift ((place_value_settles h hp hplain hslot htext 0).mono hfaults)

theorem encode_defaults_decides {slots : List Slot} (hproper : ∀ slot ∈ slots, slot.Proper)
    (hplain : ∀ slot ∈ slots, ∀ value ∈ slot.default, value.form ≠ .fileReference)
    (hslots : ∀ slot ∈ slots, slot.InReach)
    (htexts : ∀ slot ∈ slots, ∀ value ∈ slot.default, slot.TextInReach value)
    (hfaults : ∀ slot ∈ slots, ∀ value ∈ slot.default, ∀ e, slot.Refuses value e → faults e) :
    Decides (encodeDefaults disk id b slots)
      (∀ slot ∈ slots, ∀ value ∈ slot.default, slot.Fits value) faults := by
  refine .fold (fun slot hslot b => ?_) b
  cases hdefault : slot.default with
  | none => exact (Decides.pure b).iff (by simp)
  | some value =>
    have hproper := hproper slot hslot
    have hvalue := encode_value_decides disk id b hproper
      (hproper.default value hdefault) (hplain slot hslot value hdefault) (hslots slot hslot)
      (htexts slot hslot value hdefault) (hfaults slot hslot value hdefault)
    exact hvalue.iff (by simp)

theorem encode_values_decides {field : String} {entries : List (Slot × Value)}
    (hproper : ∀ entry ∈ entries, entry.1.Proper)
    (hplain : ∀ entry ∈ entries, entry.2.form ≠ .fileReference)
    (hslots : ∀ entry ∈ entries, entry.1.InReach)
    (htexts : ∀ entry ∈ entries, entry.1.TextInReach entry.2)
    (hpermits : ∀ entry ∈ entries, entry.1.permits entry.2.form = false →
      faults (.meaning entry.2.location (.valueNotPermitted entry.2.form entry.2.text
        entry.1.kind entry.1.name field)))
    (hfaults : ∀ entry ∈ entries, ∀ e, entry.1.Refuses entry.2 e → faults e) :
    Decides (encodeValues disk id field b entries)
      (∀ entry ∈ entries, entry.1.permits entry.2.form = true ∧ entry.1.Fits entry.2)
      faults := by
  refine .fold (fun entry hentry b => ?_) b
  dsimp only
  by_cases hp : entry.1.permits entry.2.form = true
  · rw [if_pos hp]
    have hvalue := encode_value_decides disk id b (hproper entry hentry) hp
      (hplain entry hentry) (hslots entry hentry) (htexts entry hentry) (hfaults entry hentry)
    exact hvalue.iff (iff_and_self.mpr fun _ => hp)
  · rw [if_neg hp]
    exact .fail (fun h => hp h.1) (hpermits entry hentry (by simpa using hp))

theorem report_deprecated_decides (schema : Schema) (f : Field) (location : Location) :
    Decides (reportDeprecated schema f location) True faults := by
  unfold reportDeprecated
  split
  · exact .modify _
  · exact .pure ()

/-- In reach there is always room for a field. -/
theorem make_room_of_reach (b : Buffer) (hslots : ∀ slot ∈ f.slots, slot.InReach) :
    ∃ room, makeRoom f b = .ok room := by
  have hsize := Field.checked_size_of_reach hslots
  have hroom : Buffer.checkSize f.requiredSize = .ok () :=
    Buffer.check_size_eq_ok.mpr (Field.required_size_of_reach hslots)
  unfold makeRoom
  simp only [hsize, hroom, bind, Except.bind]
  split <;> exact ⟨_, rfl⟩

/-- A field is written exactly if the instance has what it needs. -/
theorem encode_field_decides (hf : f ∈ schema.fields) (hproper : ∀ slot ∈ f.slots, slot.Proper)
    (hplain : i.Plain f) (hreach : i.InReach f) :
    Decides (encodeField disk schema i b f) (i.Provides f) (schema.Rejects i) := by
  unfold encodeField
  obtain ⟨room, hroom⟩ := make_room_of_reach b hreach.slots
  rw [hroom]
  refine .after (.pure room) fun b => ?_
  cases ha : i.assignment? f.name with
  | none =>
    refine .after (report_deprecated_decides schema f _) fun _ => ?_
    by_cases hrequired : f.required = true
    · rw [if_pos hrequired]
      have hnone := Instance.assignment_eq_none.mp ha
      exact .fail (fun h => hnone (h.given hrequired)) (.missingField hf hrequired ha)
    · rw [if_neg hrequired, Instance.provides_unassigned ha hrequired]
      have hstored (slot : Slot) (hslot : slot ∈ f.slots) (value : Value)
          (hvalue : value ∈ slot.default) : (slot, value) ∈ valued (i.contents f) :=
        (Instance.mem_valued_contents_unassigned ha).mpr ⟨hslot, hvalue⟩
      refine encode_defaults_decides hproper (fun slot hslot value hvalue => ?_) hreach.slots
        (fun slot hslot value hvalue => ?_) fun slot hslot value hvalue e he => ?_
      · exact hplain (fun h => absurd h hrequired) _ (hstored slot hslot value hvalue)
      · exact hreach.texts _ (hstored slot hslot value hvalue)
      · exact .refused hf (hstored slot hslot value hvalue) he
  | some a =>
    refine .after (report_deprecated_decides schema f _) fun _ => ?_
    by_cases hcount : a.values.length = f.slots.length
    · rw [if_neg (not_not.mpr hcount), Instance.provides_assigned ha hcount]
      have hstored := Instance.valued_contents_assigned ha
      have hplain := hplain fun _ => Instance.assigned_of_eq_some ha
      rw [hstored] at hplain
      refine encode_values_decides (fun entry hentry => ?_) hplain (fun entry hentry => ?_)
        (hstored ▸ hreach.texts) (fun entry hentry hform => ?_) fun entry hentry e he => ?_
      · exact hproper _ (List.of_mem_zip hentry).1
      · exact hreach.slots _ (List.of_mem_zip hentry).1
      · exact .notPermitted hf ha hentry hform
      · exact .refused hf (hstored ▸ hentry) he
    · rw [if_pos hcount]
      exact .fail (fun h => hcount (h.suits a ha).1) (.valueCount hf ha hcount)

/-- An instance that stores no file reference is assembled exactly if its type accepts it. -/
theorem encode_decides (disk : FileSystem)
    (hproper : ∀ f ∈ schema.fields, ∀ slot ∈ f.slots, slot.Proper)
    (hplain : ∀ f ∈ schema.fields, i.Plain f) (hreach : ∀ f ∈ schema.fields, i.InReach f) :
    Decides (encode disk schema i) (schema.Accepts i) (schema.Rejects i) := by
  unfold encode
  cases hunknown : i.assignments.find? fun a => (schema.field? a.field).isNone with
  | some a =>
    have ha := List.mem_of_find?_eq_some hunknown
    have hnone : schema.field? a.field = none := by simpa using List.find?_some hunknown
    refine .fail (fun h => ?_) (.unknownField ha hnone)
    obtain ⟨f, hf, hname⟩ := h.known a ha
    exact Schema.field_eq_none.mp hnone ⟨f, hf, hname⟩
  | none =>
    have hknown : ∀ a ∈ i.assignments, ∃ f ∈ schema.fields, f.name = a.field := by
      intro a ha
      have hfield : schema.field? a.field ≠ none := by
        simpa using List.find?_eq_none.mp hunknown a ha
      exact not_not.mp (Schema.field_eq_none.not.mp hfield)
    have hfields : Decides (schema.fields.foldlM (encodeField disk schema i) (.empty .big))
        (∀ f ∈ schema.fields, i.Provides f) (schema.Rejects i) := by
      refine .fold (fun f hf b => ?_) _
      exact encode_field_decides hf (hproper f hf) (hplain f hf) (hreach f hf)
    refine (hfields.bind fun b => .pure b.bytes).iff ?_
    rw [and_true]
    exact ⟨fun h => ⟨hknown, h⟩, Schema.Accepts.provided⟩

end Assembly

/-- An instance is assembled exactly if its type accepts it. Where it is not, it was never for a
text that a slot cannot store, and for the width of a slot only if a symbol stands there. -/
theorem assembled_iff_accepted (disk : FileSystem) (schema : Schema) (i : Instance)
    (before : Assembly) (hproper : ∀ f ∈ schema.fields, ∀ slot ∈ f.slots, slot.Proper)
    (hplain : ∀ f ∈ schema.fields, i.Plain f) (hreach : ∀ f ∈ schema.fields, i.InReach f) :
    ((∃ blob after, Assembly.encode disk schema i before = (.ok blob, after)) ↔
      schema.Accepts i) ∧
    ∀ e after, Assembly.encode disk schema i before = (.error e, after) →
      schema.Rejects i e ∧
      (∀ location text kind, e ≠ .meaning location (.stringNotStorable text kind)) ∧
      ∀ location slot width, e = .meaning location (.noIntegerWidth slot width) →
        ∃ f ∈ schema.fields, ∃ entry ∈ valued (i.contents f),
          entry.1.name = slot ∧ entry.2.form = .identifier ∧ entry.2.location = location := by
  have hdecides := Assembly.encode_decides disk hproper hplain hreach
  refine ⟨hdecides.succeeds_iff before, fun e after hfails => ?_⟩
  have hrejects := hdecides.fault hfails
  refine ⟨hrejects, ?_, ?_⟩
  · rintro location text kind rfl
    cases hrejects with
    | refused _ _ he => cases he
  · rintro location name width rfl
    cases hrejects with
    | refused hf hentry he =>
      cases he with
      | noWidth hform => exact ⟨_, hf, _, hentry, rfl, hform, rfl⟩

/-- A window at a place that is yet to be given. -/
def windowAt (left : String) : Instance :=
  ⟨"Window", 128, "",
    [⟨"place", [⟨.integer, left, .unknown⟩, ⟨.identifier, "below", .unknown⟩], .unknown⟩,
      ⟨"title", [⟨.string, "Hi", .unknown⟩], .unknown⟩], .unknown⟩

theorem assembled_iff_accepted_window :
    (∃ blob after, Assembly.encode (.fresh []) windowType (windowAt "65535") (.start #[]) =
      (.ok blob, after)) ∧
    ¬∃ blob after, Assembly.encode (.fresh []) windowType (windowAt "65536") (.start #[]) =
      (.ok blob, after) := by
  have hproper : ∀ f ∈ windowType.fields, ∀ slot ∈ f.slots, slot.Proper := by decide +kernel
  have hinside := assembled_iff_accepted (.fresh []) windowType (windowAt "65535") (.start #[])
    hproper (by decide +kernel) (by decide +kernel)
  have houtside := assembled_iff_accepted (.fresh []) windowType (windowAt "65536") (.start #[])
    hproper (by decide +kernel) (by decide +kernel)
  exact ⟨hinside.1.mpr (by decide +kernel), houtside.1.not.mpr (by decide +kernel)⟩

/-! A type that reaches too far -/

/-- A slot of one byte, placed as far out as a definition is asked to. -/
def brinkType (offset : Nat) : Schema :=
  ⟨"Brink", "BRNK", [⟨"last", false, "", [⟨"x", .integer 1 false, offset, 1, [], none⟩]⟩], [],
    .unknown⟩

def brink : Instance :=
  ⟨"Brink", 1, "", [⟨"last", [⟨.integer, "7", .unknown⟩], .unknown⟩], .unknown⟩

/-- The greatest offset that a definition reads is accepted, and so is the instance. But the sum of
offset and size is no word any more, and nothing checks it. Nor does a buffer hold all that a word
can count. -/
theorem accepted_instance_breaks_down :
    Text.parseByteCount "18446744073709551615" = some Slot.maxWord ∧
    Text.parseByteCount "9223372036854775807" = some Buffer.maxSize ∧
    (∀ offset ∈ [Slot.maxWord, Buffer.maxSize],
      (∀ f ∈ (brinkType offset).fields, ∀ slot ∈ f.slots, slot.Proper) ∧
      (∀ f ∈ (brinkType offset).fields, brink.Plain f) ∧ (brinkType offset).Accepts brink) ∧
    ∀ disk before,
      Assembly.encode disk (brinkType Slot.maxWord) brink before =
        (.error (.breakdown .sumOverflow), before) ∧
      Assembly.encode disk (brinkType Buffer.maxSize) brink before =
        (.error (.breakdown .capacityOverflow), before) := by
  refine ⟨by decide +kernel, by decide +kernel, by decide +kernel, fun disk before => ⟨?_, ?_⟩⟩
  · rfl
  · rfl

end ResourceCompiler

import Mathlib
import ResourceCompiler.Proofs.Reading.Consistency
import ResourceCompiler.Proofs.Schema.Sizes

/-!
Which values fit their slots. In a slot with a kind and a size as definitions give them, a value of
a form that the slot permits is written unless it has no number or its number is out of range.
-/

namespace ResourceCompiler

/-- A result that is there if a condition holds, and is one of some errors if it does not. -/
def Settles {α : Type} (good : Prop) (faults : CompileError → Prop) : Except CompileError α → Prop
  | .ok _ => good
  | .error e => ¬good ∧ faults e

theorem Settles.iff {α : Type} {good good' : Prop} {faults : CompileError → Prop}
    {r : Except CompileError α} (h : Settles good faults r) (hiff : good ↔ good') :
    Settles good' faults r := by
  rwa [← propext hiff]

theorem Settles.mono {α : Type} {good : Prop} {faults faults' : CompileError → Prop}
    {r : Except CompileError α} (h : Settles good faults r) (hle : ∀ e, faults e → faults' e) :
    Settles good faults' r := by
  cases r with
  | ok a => exact h
  | error e => exact ⟨h.1, hle e h.2⟩

/-! Numbers -/

/-- A byte has eight bits. -/
theorem capacity_eq_two_pow (width : Nat) : capacity width = 2 ^ (8 * width) := by
  induction width with
  | zero => rfl
  | succ width ih => rw [capacity, ih, Nat.mul_succ, Nat.pow_add, Nat.mul_comm]

/-- What so many bytes hold. Where numbers below zero are allowed, all those above it are still
the unsigned ones. -/
def InRange (width : Nat) (signed : Bool) (n : Int) : Prop :=
  (if signed then -(2 : Int) ^ (8 * width - 1) else 0) ≤ n ∧ n ≤ (2 : Int) ^ (8 * width) - 1

def IsWord (n : Int) : Prop := -32768 ≤ n ∧ n ≤ 32767

def IsColor (n : Int) : Prop := 0 ≤ n ∧ n ≤ 0xFFFFFF

instance (width : Nat) (signed : Bool) (n : Int) : Decidable (InRange width signed n) :=
  inferInstanceAs (Decidable (_ ∧ _))

instance (n : Int) : Decidable (IsWord n) := inferInstanceAs (Decidable (_ ∧ _))

instance (n : Int) : Decidable (IsColor n) := inferInstanceAs (Decidable (_ ∧ _))

theorem half_capacity {width : Nat} (h : 0 < width) : capacity width / 2 = 2 ^ (8 * width - 1) := by
  have hbits : 8 * width = (8 * width - 1) + 1 := by omega
  rw [capacity_eq_two_pow, hbits, Nat.pow_succ, Nat.mul_div_cancel _ (by decide),
    Nat.add_sub_cancel]

theorem number_fits_iff {width : Nat} (h : 0 < width) {signed : Bool} {n : Int} :
    Blob.numberFits width signed n = true ↔ InRange width signed n := by
  have hhigh : n < (capacity width : Int) ↔ n ≤ (2 : Int) ^ (8 * width) - 1 := by
    rw [capacity_eq_two_pow, Nat.cast_pow, Nat.cast_ofNat, Int.lt_iff_add_one_le,
      Int.le_sub_one_iff]
    exact Iff.rfl
  have hlow : Blob.leastNumber width signed =
      if signed then -(2 : Int) ^ (8 * width - 1) else 0 := by
    rw [Blob.leastNumber, half_capacity h, Nat.cast_pow, Nat.cast_ofNat]
  rw [Blob.numberFits, Bool.and_eq_true, decide_eq_true_eq, decide_eq_true_eq, hlow, hhigh, InRange]

/-! Slots -/

namespace Slot

/-- Kind and size agree, and the default has a form that the slot permits. -/
structure Proper (slot : Slot) : Prop where
  size : slot.kind.MayTake slot.size
  default : ∀ v ∈ slot.default, slot.permits v.form = true

instance (kind : SlotKind) (size : Nat) : Decidable (kind.MayTake size) :=
  inferInstanceAs (Decidable (_ ∨ _ ∧ _))

instance (slot : Slot) : Decidable slot.Proper :=
  decidable_of_iff (slot.kind.MayTake slot.size ∧ ∀ v ∈ slot.default, slot.permits v.form = true)
    ⟨fun ⟨size, default⟩ => ⟨size, default⟩, fun h => ⟨h.size, h.default⟩⟩

theorem Consistent.proper {slot : Slot} (h : slot.Consistent) : slot.Proper :=
  ⟨h.size, fun v hv => (h.default v hv).1⟩

/-- The slot is as wide as an integer may be, and the number is in range for it. -/
def HoldsNumber (slot : Slot) (n : Int) : Prop :=
  (slot.size = 1 ∨ slot.size = 2 ∨ slot.size = 4 ∨ slot.size = 8) ∧
    InRange slot.size slot.kind.isSigned n

instance (slot : Slot) (n : Int) : Decidable (slot.HoldsNumber n) :=
  inferInstanceAs (Decidable (_ ∧ _))

/-- Whether a slot can represent what a text means in a form that the slot permits. A string always
can be, since it is cut to the slot. Of a file reference nothing is known before its file has an
id. -/
def Represents (slot : Slot) (text : String) : ValueForm → Prop
  | .integer | .percentage => ∃ n ∈ Text.parseInteger text, slot.HoldsNumber n
  | .resourceId => ∃ n ∈ Text.parseInteger text, IsWord n
  | .color => ∃ n ∈ Text.parseInteger text, IsColor n
  | .identifier => ∃ symbol ∈ slot.symbol? text,
      if slot.kind = .resourceReference then IsWord symbol.value.toInt
      else slot.HoldsNumber symbol.value.toInt
  | .string => True
  | .fileReference => False

instance (slot : Slot) (text : String) : (form : ValueForm) → Decidable (slot.Represents text form)
  | .integer | .percentage =>
    inferInstanceAs (Decidable (∃ n ∈ Text.parseInteger text, slot.HoldsNumber n))
  | .resourceId => inferInstanceAs (Decidable (∃ n ∈ Text.parseInteger text, IsWord n))
  | .color => inferInstanceAs (Decidable (∃ n ∈ Text.parseInteger text, IsColor n))
  | .identifier => inferInstanceAs (Decidable (∃ symbol ∈ slot.symbol? text,
      if slot.kind = .resourceReference then IsWord symbol.value.toInt
      else slot.HoldsNumber symbol.value.toInt))
  | .string => inferInstanceAs (Decidable True)
  | .fileReference => inferInstanceAs (Decidable False)

def Fits (slot : Slot) (value : Value) : Prop := slot.Represents value.text value.form

instance (slot : Slot) (value : Value) : Decidable (slot.Fits value) :=
  inferInstanceAs (Decidable (slot.Represents value.text value.form))

/-- Why a value that a slot permits is not written. Only a word can be for a slot that is not as
wide as an integer. -/
inductive Refuses (slot : Slot) (value : Value) : CompileError → Prop
  | notInteger (h : Text.parseInteger value.text = none) :
    Refuses slot value (.meaning value.location (.invalidInteger value.text))
  | unknownSymbol (h : slot.symbol? value.text = none) :
    Refuses slot value (.meaning value.location (.unknownSymbol value.text slot.name))
  | outOfRange (room : Room) :
    Refuses slot value (.meaning value.location (.outOfRange value.text room))
  | noWidth (h : value.form = .identifier) :
    Refuses slot value (.meaning value.location (.noIntegerWidth slot.name slot.size))

variable {slot : Slot} {value : Value} {b : Buffer} {faults : CompileError → Prop}

theorem Proper.number_width (h : slot.Proper) : Blob.numberWidth slot = slot.size := by
  rcases h.size with hshaped | ⟨-, hkind | hkind⟩
  · exact Shaped.number_width hshaped
  · rw [Blob.numberWidth, hkind]
  · rw [Blob.numberWidth, hkind]

/-- A slot that takes integers is as wide as one. -/
theorem Proper.integer_width (h : slot.Proper) (hp : slot.kind.accepts .integer = true) :
    slot.size = 1 ∨ slot.size = 2 ∨ slot.size = 4 ∨ slot.size = 8 := by
  have hsize := h.size
  unfold SlotKind.MayTake at hsize
  cases hk : slot.kind <;> simp_all [SlotKind.accepts, SlotKind.HasSize]

theorem write_number_settles (h : slot.Proper)
    (hwidth : value.form = .identifier ∨
      slot.size = 1 ∨ slot.size = 2 ∨ slot.size = 4 ∨ slot.size = 8) (n : Int) :
    Settles (slot.HoldsNumber n) (slot.Refuses value) (Blob.writeNumber b slot n value) := by
  unfold Blob.writeNumber HoldsNumber
  rw [h.number_width]
  dsimp only
  by_cases hw : slot.size = 1 ∨ slot.size = 2 ∨ slot.size = 4 ∨ slot.size = 8
  · have hpos : 0 < slot.size := by omega
    have hinteger : Buffer.isIntegerWidth slot.size = true := Buffer.is_integer_width.mpr hw
    rw [if_neg (by simp [hinteger])]
    by_cases hn : InRange slot.size slot.kind.isSigned n
    · have hfits := (number_fits_iff hpos).mpr hn
      rw [if_neg (by simp [hfits]), Buffer.writeInteger, if_pos hinteger]
      exact ⟨hw, hn⟩
    · have hfits := (number_fits_iff hpos).not.mpr hn
      rw [if_pos (by simpa using hfits)]
      exact ⟨fun hholds => hn hholds.2, .outOfRange _⟩
  · have hinteger : ¬Buffer.isIntegerWidth slot.size = true :=
      Buffer.is_integer_width.not.mpr hw
    rw [if_pos (by simp [hinteger])]
    exact ⟨fun hholds => hw hholds.1, .noWidth (hwidth.resolve_right hw)⟩

theorem write_resource_id_settles (n : Int) :
    Settles (IsWord n) (slot.Refuses value) (Blob.writeResourceId b n value) := by
  unfold Blob.writeResourceId
  split
  · rename_i hn
    exact hn
  · rename_i hn
    exact ⟨hn, .outOfRange _⟩

theorem write_color_settles (n : Int) :
    Settles (IsColor n) (slot.Refuses value) (Blob.writeColor b n value) := by
  unfold Blob.writeColor
  split
  · rename_i hn
    exact hn
  · rename_i hn
    exact ⟨hn, .outOfRange _⟩

/-- What is written from the digits of a value. -/
theorem write_integer_settles {good : Int → Prop} {write : Int → Except CompileError Buffer}
    (hwrite : ∀ n, Settles (good n) (slot.Refuses value) (write n)) :
    Settles (∃ n ∈ Text.parseInteger value.text, good n) (slot.Refuses value)
      (do write (← value.integer)) := by
  unfold Value.integer
  cases hn : Text.parseInteger value.text with
  | none => exact ⟨nofun, .notInteger hn⟩
  | some n => exact (hwrite n).iff (by simp)

theorem write_text_settles (hp : slot.permits .string = true) :
    Settles True (slot.Refuses value) (Blob.writeText b slot value) := by
  unfold permits at hp
  unfold Blob.writeText
  cases hk : slot.kind <;> simp_all [SlotKind.accepts, Settles]

theorem write_symbol_settles (h : slot.Proper) (hform : value.form = .identifier) :
    Settles (∃ symbol ∈ slot.symbol? value.text,
      if slot.kind = .resourceReference then IsWord symbol.value.toInt
      else slot.HoldsNumber symbol.value.toInt) (slot.Refuses value)
      (Blob.writeSymbol b slot value) := by
  unfold Blob.writeSymbol
  cases hsymbol : slot.symbol? value.text with
  | none => exact ⟨nofun, .unknownSymbol hsymbol⟩
  | some symbol =>
    dsimp only
    by_cases hk : slot.kind = .resourceReference
    · simp only [hk, if_true]
      exact (write_resource_id_settles _).iff (by simp)
    · simp only [if_neg hk]
      exact (write_number_settles h (.inl hform) _).iff (by simp)

/-- A value that its slot permits is written exactly if it fits, wherever the cursor stands. -/
theorem write_value_settles (h : slot.Proper) (hp : slot.permits value.form = true)
    (hplain : value.form ≠ .fileReference) (imported : Int64) :
    Settles (slot.Fits value) (slot.Refuses value) (Blob.writeValue b slot value imported) := by
  have hwide (hinteger : slot.kind.accepts .integer = true) (n : Int) :
      Settles (slot.HoldsNumber n) (slot.Refuses value) (Blob.writeNumber b slot n value) :=
    write_number_settles h (.inr (h.integer_width hinteger)) n
  unfold Blob.writeValue Fits Represents
  cases hform : value.form with
  | integer =>
    have hinteger : slot.kind.accepts .integer = true := by simpa [permits, hform] using hp
    exact write_integer_settles (hwide hinteger)
  | percentage =>
    have hinteger : slot.kind.accepts .integer = true := by
      cases hk : slot.kind <;> simp_all [permits, SlotKind.accepts]
    exact write_integer_settles (hwide hinteger)
  | resourceId => exact write_integer_settles write_resource_id_settles
  | color => exact write_integer_settles write_color_settles
  | identifier => exact write_symbol_settles h hform
  | string => exact write_text_settles (hform ▸ hp)
  | fileReference => exact absurd hform hplain

end Slot

/-! Where a value ends -/

theorem Buffer.cursor_put_number (b : Buffer) (width : Nat) (n : Int) :
    (b.putNumber width n).cursor = b.cursor + width := by
  rw [putNumber, (put_spec ..).2.1, ByteOrder.length_encode]

namespace Blob

variable {b b' : Buffer} {slot : Slot} {value : Value} {n : Int}

theorem cursor_write_number (h : writeNumber b slot n value = .ok b') :
    b'.cursor = b.cursor + numberWidth slot := by
  unfold writeNumber Buffer.writeInteger at h
  dsimp only at h
  split at h
  · cases h
  split at h
  · cases h
  split at h
  · cases h
    exact Buffer.cursor_put_number ..
  · cases h

theorem cursor_write_resource_id (h : writeResourceId b n value = .ok b') :
    b'.cursor = b.cursor + 2 := by
  unfold writeResourceId at h
  split at h <;> cases h
  exact Buffer.cursor_put_number ..

theorem cursor_write_color (h : writeColor b n value = .ok b') : b'.cursor = b.cursor + 4 := by
  unfold writeColor at h
  split at h <;> cases h
  exact Buffer.cursor_put_number ..

end Blob

namespace Slot

variable {slot : Slot} {value : Value} {b b' : Buffer}

/-- What a slot permits it has room for, unless it is a text. -/
theorem Proper.has_room (h : slot.Proper) {form : ValueForm} (hp : slot.permits form = true) :
    form.FitsSize slot.size := by
  rcases h.size with hshaped | ⟨-, hkind | hkind⟩
  · exact Shaped.has_room hshaped hp
  all_goals
    cases form <;> simp_all [permits, SlotKind.accepts, ValueForm.FitsSize]

/-- A text without a fixed size, which only a slot without one takes, ends where a buffer can hold
it. -/
def TextInReach (slot : Slot) (value : Value) : Prop :=
  slot.size = 0 → slot.offset + value.text.length < Buffer.maxSize

instance (slot : Slot) (value : Value) : Decidable (slot.TextInReach value) :=
  inferInstanceAs (Decidable (_ → _))

/-- The cursor behind a value. Only a text without a fixed size leads out of its slot. -/
def Ends (slot : Slot) (value : Value) (start finish : Nat) : Prop :=
  finish ≤ start + slot.size ∨ slot.size = 0 ∧ finish ≤ start + (value.text.length + 1)

/-- A text is cut to the size of its slot, if it has one. -/
theorem ends_of_write_text (h : slot.Proper) (hform : value.form = .string)
    (hw : Blob.writeText b slot value = .ok b') : slot.Ends value b.cursor b'.cursor := by
  obtain ⟨bytes, hbytes, rfl⟩ := Blob.write_text_eq_ok.mp hw
  rw [(Buffer.put_spec ..).2.1]
  rcases h.size with hshaped | ⟨hsize, hkind⟩
  · have hencodes : slot.Encodes value 0 bytes := by rwa [Encodes, hform]
    refine .inl (Nat.add_le_add_left (Shaped.length_le hshaped ?_ hencodes) _)
    rw [hform]
    trivial
  · refine .inr ⟨hsize, Nat.add_le_add_left ?_ _⟩
    rcases hbytes with ⟨-, rfl⟩ | ⟨-, rfl⟩ | ⟨length, hk, -⟩
    · rw [List.length_cons, List.length_take, MacRoman.length_encode, String.length_toList]
      omega
    · rw [List.length_append, MacRoman.length_encode, List.length_singleton, String.length_toList]
    · simp [hk] at hkind

theorem ends_of_write_symbol (h : slot.Proper) (hw : Blob.writeSymbol b slot value = .ok b') :
    slot.Ends value b.cursor b'.cursor := by
  unfold Blob.writeSymbol at hw
  split at hw
  · cases hw
  split at hw
  · rename_i hkind
    have hid : slot.permits .resourceId = true := by simp [permits, hkind, SlotKind.accepts]
    have hsize : 2 ≤ slot.size := h.has_room hid
    exact .inl ((Blob.cursor_write_resource_id hw).trans_le (Nat.add_le_add_left hsize _))
  · exact .inl ((Blob.cursor_write_number hw).trans_le (by rw [h.number_width]))

/-- A value that its slot permits ends in its slot, or is a text without a fixed size. -/
theorem ends_of_write_value (h : slot.Proper) (hp : slot.permits value.form = true)
    {imported : Int64} (hw : Blob.writeValue b slot value imported = .ok b') :
    slot.Ends value b.cursor b'.cursor := by
  have hroom := h.has_room hp
  unfold Blob.writeValue at hw
  cases hform : value.form with
  | integer | percentage =>
    simp only [hform] at hw
    obtain ⟨n, -, hw⟩ := except_bind_eq_ok.mp hw
    exact .inl ((Blob.cursor_write_number hw).trans_le (by rw [h.number_width]))
  | resourceId =>
    simp only [hform] at hw hroom
    obtain ⟨n, -, hw⟩ := except_bind_eq_ok.mp hw
    exact .inl ((Blob.cursor_write_resource_id hw).trans_le (Nat.add_le_add_left hroom _))
  | fileReference =>
    simp only [hform] at hw hroom
    exact .inl ((Blob.cursor_write_resource_id hw).trans_le (Nat.add_le_add_left hroom _))
  | color =>
    simp only [hform] at hw hroom
    obtain ⟨n, -, hw⟩ := except_bind_eq_ok.mp hw
    exact .inl ((Blob.cursor_write_color hw).trans_le (Nat.add_le_add_left hroom _))
  | identifier =>
    simp only [hform] at hw
    exact ends_of_write_symbol h hw
  | string =>
    simp only [hform] at hw
    exact ends_of_write_text h hform hw

theorem Ends.le_max_size {finish : Nat} (h : slot.Ends value slot.offset finish)
    (hslot : slot.InReach) (htext : slot.TextInReach value) : finish ≤ Buffer.maxSize := by
  rcases h with hfinish | ⟨hsize, hfinish⟩
  · exact Nat.le_trans hfinish hslot
  · exact Nat.le_trans hfinish (htext hsize)

end Slot

end ResourceCompiler

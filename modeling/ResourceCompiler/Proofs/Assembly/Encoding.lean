import ResourceCompiler.Assembly.Blob
import ResourceCompiler.Proofs.Binary.Writings
import ResourceCompiler.Proofs.Container.StandardImage

/-!
The bytes that a value is stored as in a slot. A value that can be written is written as exactly
these, from the cursor on, and in a slot of a proper shape they never reach beyond the slot.
-/

namespace ResourceCompiler

namespace Slot

/-- A number in so many bytes, big-endian and below zero in two's complement. -/
def EncodesNumber (slot : Slot) (n : Int) (bytes : List UInt8) : Prop :=
  let width := Blob.numberWidth slot
  (width = 1 ∨ width = 2 ∨ width = 4 ∨ width = 8) ∧
    Blob.leastNumber width slot.kind.isSigned ≤ n ∧ n < capacity width ∧
    bytes = ByteOrder.big.encode width (wrap width n)

/-- The id of a resource as a signed word of 16 bits. -/
def EncodesId (id : Int) (bytes : List UInt8) : Prop :=
  -32768 ≤ id ∧ id ≤ 32767 ∧ bytes = ByteOrder.big.encode 2 (wrap 2 id)

/-- How many characters a length-prefixed slot keeps of a text. -/
def pascalLimit (slot : Slot) : Nat := if 0 < slot.size then min (slot.size - 1) 255 else 255

/-- The bytes that a value is stored as. A file reference is stored as the id that its file was
given, which is `imported`. -/
def Encodes (slot : Slot) (value : Value) (imported : Int64) (bytes : List UInt8) : Prop :=
  match value.form with
  | .integer | .percentage =>
    ∃ n, Text.parseInteger value.text = some n ∧ slot.EncodesNumber n bytes
  | .resourceId => ∃ n, Text.parseInteger value.text = some n ∧ EncodesId n bytes
  | .string =>
    (slot.kind = .pascalString ∧
      let kept := (MacRoman.encode value.text).take slot.pascalLimit
      bytes = UInt8.ofNat kept.length :: kept) ∨
    (slot.kind = .cString none ∧ bytes = MacRoman.encode value.text ++ [0]) ∨
    ∃ length, slot.kind = .cString (some length) ∧
      bytes = if length = 0 then MacRoman.encode value.text ++ [0]
        else Buffer.padded length (MacRoman.encode value.text)
  | .identifier => ∃ symbol, slot.symbol? value.text = some symbol ∧
      if slot.kind = .resourceReference then EncodesId symbol.value.toInt bytes
      else slot.EncodesNumber symbol.value.toInt bytes
  | .fileReference => EncodesId imported.toInt bytes
  | .color => ∃ n, Text.parseInteger value.text = some n ∧ 0 ≤ n ∧ n ≤ 0xFFFFFF ∧
      bytes = ByteOrder.big.encode 4 n.toNat

theorem encodes_reference {slot : Slot} {value : Value} {imported : Int64} {bytes : List UInt8}
    (hform : value.form = .fileReference) :
    slot.Encodes value imported bytes ↔ EncodesId imported.toInt bytes := by
  simp only [Encodes, hform]

end Slot

namespace Blob

variable {b b' : Buffer} {slot : Slot} {value : Value}

theorem integer_eq_ok {n : Int} :
    value.integer = .ok n ↔ Text.parseInteger value.text = some n := by
  unfold Value.integer
  split <;> simp_all

theorem write_number_eq_ok (hb : b.order = .big) {n : Int} :
    writeNumber b slot n value = .ok b' ↔
      ∃ bytes, slot.EncodesNumber n bytes ∧ b' = b.put bytes := by
  unfold writeNumber Slot.EncodesNumber
  dsimp only
  by_cases hw : Buffer.isIntegerWidth (numberWidth slot) = true
  · rw [if_neg (by simp [hw])]
    by_cases hf : numberFits (numberWidth slot) slot.kind.isSigned n = true
    · rw [if_neg (by simp [hf]), Buffer.writeInteger, if_pos hw, Buffer.putNumber, hb]
      simp only [numberFits, Bool.and_eq_true, decide_eq_true_eq] at hf
      simp [Buffer.is_integer_width.mp hw, hf, eq_comm (a := b')]
    · rw [if_pos (by simp [hf])]
      simp only [numberFits, Bool.and_eq_true, decide_eq_true_eq] at hf
      simp only [reduceCtorEq, false_iff, not_exists]
      rintro _ ⟨⟨_, hlow, hhigh, _⟩, _⟩
      exact hf ⟨hlow, hhigh⟩
  · rw [if_pos (by simp [hw])]
    simp only [reduceCtorEq, false_iff, not_exists]
    rintro _ ⟨⟨hwidth, _⟩, _⟩
    exact hw (Buffer.is_integer_width.mpr hwidth)

theorem write_resource_id_eq_ok (hb : b.order = .big) {id : Int} :
    writeResourceId b id value = .ok b' ↔ ∃ bytes, Slot.EncodesId id bytes ∧ b' = b.put bytes := by
  unfold writeResourceId Slot.EncodesId
  split
  · rename_i h
    simp [h, Buffer.putNumber, hb, eq_comm]
  · rename_i h
    simp only [reduceCtorEq, false_iff, not_exists]
    rintro _ ⟨⟨hlow, hhigh, _⟩, _⟩
    exact h ⟨hlow, hhigh⟩

theorem write_color_eq_ok (hb : b.order = .big) {n : Int} :
    writeColor b n value = .ok b' ↔ ∃ bytes, (0 ≤ n ∧ n ≤ 0xFFFFFF ∧
      bytes = ByteOrder.big.encode 4 n.toNat) ∧ b' = b.put bytes := by
  unfold writeColor
  split
  · rename_i h
    have hwrap : wrap 4 n = n.toNat := by
      rw [wrap, Int.emod_eq_of_lt h.1 (by simp only [capacity]; omega)]
    simp [h, Buffer.putNumber, hb, hwrap, eq_comm]
  · rename_i h
    simp only [reduceCtorEq, false_iff, not_exists]
    rintro _ ⟨⟨hlow, hhigh, _⟩, _⟩
    exact h ⟨hlow, hhigh⟩

theorem pascal_bytes_eq (slot : Slot) (text : String) :
    Buffer.pascalBytes (pascalText slot text) =
      UInt8.ofNat ((MacRoman.encode text).take slot.pascalLimit).length ::
        (MacRoman.encode text).take slot.pascalLimit := by
  unfold Buffer.pascalBytes pascalText Slot.pascalLimit
  by_cases hs : 0 < slot.size
  · simp [hs, MacRoman.encode, List.map_take, List.take_take, Nat.min_comm]
  · simp [hs]

theorem write_text_eq_ok : writeText b slot value = .ok b' ↔
    ∃ bytes, ((slot.kind = .pascalString ∧
      let kept := (MacRoman.encode value.text).take slot.pascalLimit
      bytes = UInt8.ofNat kept.length :: kept) ∨
    (slot.kind = .cString none ∧ bytes = MacRoman.encode value.text ++ [0]) ∨
    ∃ length, slot.kind = .cString (some length) ∧
      bytes = if length = 0 then MacRoman.encode value.text ++ [0]
        else Buffer.padded length (MacRoman.encode value.text)) ∧ b' = b.put bytes := by
  unfold writeText
  split
  · rename_i hk
    simp [hk, Buffer.writePascal, pascal_bytes_eq, eq_comm (a := b')]
  · rename_i fixed hk
    cases fixed with
    | none => simp [hk, Buffer.writeCString, Buffer.cStringBytes, eq_comm (a := b')]
    | some length => simp [hk, Buffer.writeCString, Buffer.cStringBytes, eq_comm (a := b')]
  · rename_i hp hc
    simp only [reduceCtorEq, false_iff, not_exists]
    rintro _ ⟨⟨hk, _⟩ | ⟨hk, _⟩ | ⟨_, hk, _⟩, _⟩
    · exact hp hk
    · exact hc _ hk
    · exact hc _ hk

theorem write_symbol_eq_ok (hb : b.order = .big) :
    writeSymbol b slot value = .ok b' ↔
      ∃ bytes, (∃ symbol, slot.symbol? value.text = some symbol ∧
        if slot.kind = .resourceReference then Slot.EncodesId symbol.value.toInt bytes
        else slot.EncodesNumber symbol.value.toInt bytes) ∧ b' = b.put bytes := by
  unfold writeSymbol
  cases hsym : slot.symbol? value.text with
  | none => simp
  | some symbol =>
    dsimp only
    split
    · rename_i hk
      simp [write_resource_id_eq_ok hb, hk]
    · rename_i hk
      have hk : slot.kind ≠ .resourceReference := hk
      simp only [write_number_eq_ok hb, Option.some.injEq, exists_eq_left', if_neg hk]

/-- A value is written as the bytes that it is stored as, or not at all. -/
theorem write_value_eq_ok (hb : b.order = .big) {imported : Int64} :
    writeValue b slot value imported = .ok b' ↔
      ∃ bytes, slot.Encodes value imported bytes ∧ b' = b.put bytes := by
  unfold writeValue Slot.Encodes
  cases value.form with
  | integer | percentage =>
    simp only [except_bind_eq_ok, integer_eq_ok, write_number_eq_ok hb]
    exact ⟨fun ⟨n, hn, bytes, he, hp⟩ => ⟨bytes, ⟨n, hn, he⟩, hp⟩,
      fun ⟨bytes, ⟨n, hn, he⟩, hp⟩ => ⟨n, hn, bytes, he, hp⟩⟩
  | resourceId =>
    simp only [except_bind_eq_ok, integer_eq_ok, write_resource_id_eq_ok hb]
    exact ⟨fun ⟨n, hn, bytes, he, hp⟩ => ⟨bytes, ⟨n, hn, he⟩, hp⟩,
      fun ⟨bytes, ⟨n, hn, he⟩, hp⟩ => ⟨n, hn, bytes, he, hp⟩⟩
  | color =>
    simp only [except_bind_eq_ok, integer_eq_ok, write_color_eq_ok hb]
    exact ⟨fun ⟨n, hn, bytes, he, hp⟩ => ⟨bytes, ⟨n, hn, he⟩, hp⟩,
      fun ⟨bytes, ⟨n, hn, he⟩, hp⟩ => ⟨n, hn, bytes, he, hp⟩⟩
  | string => exact write_text_eq_ok
  | identifier => exact write_symbol_eq_ok hb
  | fileReference => exact write_resource_id_eq_ok hb

end Blob

/-! How many bytes it takes -/

/-- The kinds and sizes that a definition can give a slot which is not a text of any length. -/
def SlotKind.HasSize : SlotKind → (size : Nat) → Prop
  | .integer width _, size | .bitmask width, size =>
    (width = 1 ∨ width = 2 ∨ width = 4 ∨ width = 8) ∧ size = width
  | .resourceReference, size => size = 2
  | .color, size => size = 4
  | .pascalString, size => 0 < size
  | .cString fixedLength, size => 0 < size ∧ fixedLength = some size

instance : (kind : SlotKind) → (size : Nat) → Decidable (kind.HasSize size)
  | .integer width _, size | .bitmask width, size =>
    inferInstanceAs (Decidable ((width = 1 ∨ width = 2 ∨ width = 4 ∨ width = 8) ∧ size = width))
  | .resourceReference, size => inferInstanceAs (Decidable (size = 2))
  | .color, size => inferInstanceAs (Decidable (size = 4))
  | .pascalString, size => inferInstanceAs (Decidable (0 < size))
  | .cString fixedLength, size => inferInstanceAs (Decidable (0 < size ∧ fixedLength = some size))

/-- Whether a literal of a form fits so many bytes. A number or a text is cut to the measure of its
slot, but an id takes two bytes and a colour four. -/
def ValueForm.FitsSize : ValueForm → (size : Nat) → Prop
  | .resourceId, size | .fileReference, size => 2 ≤ size
  | .color, size => 4 ≤ size
  | _, _ => True

instance : (form : ValueForm) → (size : Nat) → Decidable (form.FitsSize size)
  | .resourceId, size | .fileReference, size => inferInstanceAs (Decidable (2 ≤ size))
  | .color, size => inferInstanceAs (Decidable (4 ≤ size))
  | .identifier, _ | .integer, _ | .string, _ | .percentage, _ => inferInstanceAs (Decidable True)

namespace Slot

def Shaped (slot : Slot) : Prop := slot.kind.HasSize slot.size

instance (slot : Slot) : Decidable slot.Shaped := inferInstanceAs (Decidable (slot.kind.HasSize _))

variable {slot : Slot} {value : Value} {imported : Int64} {bytes : List UInt8}

/-- What a slot permits it has room for. -/
theorem Shaped.has_room (hs : slot.Shaped) {form : ValueForm} (hp : slot.permits form = true) :
    form.FitsSize slot.size := by
  unfold Shaped at hs
  unfold permits SlotKind.accepts at hp
  cases hk : slot.kind <;> cases form <;> simp_all [SlotKind.HasSize, ValueForm.FitsSize]

theorem Shaped.number_width (hs : slot.Shaped) : Blob.numberWidth slot = slot.size := by
  unfold Shaped at hs
  unfold Blob.numberWidth
  cases hk : slot.kind <;> simp_all [SlotKind.HasSize]

/-- What a value is stored as stays inside its slot. -/
theorem Shaped.length_le (hs : slot.Shaped) (hr : value.form.FitsSize slot.size)
    (he : slot.Encodes value imported bytes) : bytes.length ≤ slot.size := by
  have hnumber {n : Int} (h : slot.EncodesNumber n bytes) : bytes.length ≤ slot.size := by
    obtain ⟨_, _, _, rfl⟩ := h
    exact Nat.le_of_eq ((ByteOrder.length_encode ..).trans hs.number_width)
  have hid {id : Int} (h : EncodesId id bytes) (hroom : 2 ≤ slot.size) :
      bytes.length ≤ slot.size := by
    obtain ⟨_, _, rfl⟩ := h
    rwa [ByteOrder.length_encode]
  unfold Encodes at he
  cases hf : value.form with
  | integer | percentage =>
    simp only [hf] at he
    obtain ⟨n, _, h⟩ := he
    exact hnumber h
  | resourceId =>
    simp only [hf] at he hr
    obtain ⟨n, _, h⟩ := he
    exact hid h hr
  | fileReference =>
    simp only [hf] at he hr
    exact hid he hr
  | color =>
    simp only [hf] at he hr
    obtain ⟨n, _, _, _, rfl⟩ := he
    rwa [ByteOrder.length_encode]
  | identifier =>
    simp only [hf] at he
    obtain ⟨symbol, _, h⟩ := he
    split at h
    · rename_i hk
      simp only [Shaped, hk, SlotKind.HasSize] at hs
      exact hid h (by omega)
    · exact hnumber h
  | string =>
    simp only [hf] at he
    rw [Shaped] at hs
    rcases he with ⟨hk, rfl⟩ | ⟨hk, _⟩ | ⟨length, hk, rfl⟩
    · simp only [hk, SlotKind.HasSize] at hs
      rw [List.length_cons, List.length_take, pascalLimit, if_pos hs]
      omega
    · simp [hk, SlotKind.HasSize] at hs
    · simp only [hk, SlotKind.HasSize, Option.some.injEq] at hs
      rw [if_neg (by omega), Buffer.padded, List.length_append, List.length_take,
        List.length_replicate]
      omega

end Slot

end ResourceCompiler

import ResourceCompiler.Proofs.Assembly.Fitting
import ResourceCompiler.Proofs.Assembly.Storing

/-!
Integers in a buffer. A field of so many bytes keeps every integer from the least signed to the
greatest unsigned one, and the assembler writes no other: what it would have to cut it refuses.
-/

namespace ResourceCompiler

/-! Fields -/

namespace ByteOrder

/-- The bytes of a big-endian field in this order. -/
def arrange (order : ByteOrder) (field : List UInt8) : List UInt8 :=
  match order with
  | .big => field
  | .little => field.reverse

/-- An integer can be read from a field. Its bytes are the integer up to a multiple of what they
hold, so they are the integer itself for a reader that knows on which side of zero it is. -/
structure Keeps (order : ByteOrder) (width : Nat) (v : Int) (field : List UInt8) : Prop where
  residue : (order.decode field : Int) = v % 2 ^ (8 * width)
  unsigned : 0 ≤ v → (order.decode field : Int) = v
  signed : v < 2 ^ (8 * width - 1) → signedValue width (order.decode field) = v

theorem arrange_encode (order : ByteOrder) (width n : Nat) :
    order.arrange (big.encode width n) = order.encode width n := by
  cases order with
  | big => rfl
  | little => exact List.reverse_reverse _

theorem keeps_encode (order : ByteOrder) {width : Nat} {v : Int} (hw : 0 < width)
    (hv : InRange width true v) : order.Keeps width v (order.encode width (wrap width v)) := by
  have hcapacity : (capacity width : Int) = 2 ^ (8 * width) := by
    rw [capacity_eq_two_pow, Nat.cast_pow, Nat.cast_ofNat]
  have hhalf : (2 : Int) ^ (8 * width) = 2 * 2 ^ (8 * width - 1) := by
    rw [← Int.pow_succ', Nat.sub_add_cancel (by omega)]
  have hresidue : (order.decode (order.encode width (wrap width v)) : Int) =
      v % 2 ^ (8 * width) := by
    have hpos : (capacity width : Int) ≠ 0 := by
      rw [hcapacity]
      positivity
    rw [decode_encode, Nat.mod_eq_of_lt (wrap_lt_capacity ..), wrap,
      Int.toNat_of_nonneg (Int.emod_nonneg _ hpos), hcapacity]
  obtain ⟨hlow, hhigh⟩ := hv
  rw [if_pos rfl] at hlow
  refine ⟨hresidue, fun hv => ?_, fun hv => ?_⟩
  · rw [hresidue, Int.emod_eq_of_lt hv (by omega)]
  · rw [decode_encode, Nat.mod_eq_of_lt (wrap_lt_capacity ..)]
    exact signed_value_wrap (by omega) (by omega)

end ByteOrder

namespace Buffer

/-- What was put at the cursor is found where the cursor stood. -/
theorem slice_put (b : Buffer) (bytes : List UInt8) :
    slice? (b.put bytes).bytes.data.toList b.cursor bytes.length = some bytes := by
  obtain ⟨-, -, hsize, hbytes⟩ := put_spec b bytes
  refine slice_of_bytes ?_ fun k hk => ?_
  · rw [← size_eq, hsize]
    exact Nat.le_max_right ..
  · refine (hbytes _).trans ?_
    rw [Writing.byte_get (w := ⟨b.cursor, bytes⟩) hk, Option.getD_some]

/-- At a position stands a field of so many bytes that keeps an integer. -/
def KeepsNumber (b : Buffer) (position width : Nat) (v : Int) : Prop :=
  ∃ field, slice? b.bytes.data.toList position width = some field ∧ b.order.Keeps width v field

theorem put_number_keeps (b : Buffer) {width : Nat} {v : Int} (hw : 0 < width)
    (hv : InRange width true v) : (b.putNumber width v).KeepsNumber b.cursor width v := by
  refine ⟨b.order.encode width (wrap width v), ?_, ?_⟩
  · have h := b.slice_put (b.order.encode width (wrap width v))
    rwa [ByteOrder.length_encode] at h
  · rw [putNumber, (put_spec b _).1]
    exact ByteOrder.keeps_encode _ hw hv

end Buffer

/-! Values -/

theorem InRange.signed {width : Nat} {signed : Bool} {n : Int} (h : InRange width signed n) :
    InRange width true n := by
  refine ⟨?_, h.2⟩
  have hlow := h.1
  rw [if_pos rfl]
  split at hlow
  · exact hlow
  · have : (0 : Int) ≤ 2 ^ (8 * width - 1) := by positivity
    omega

/-- The number that a value stands for in a slot: its digits say it, or it is its symbol's. -/
def Slot.numberFor? (slot : Slot) (value : Value) : Option Int :=
  match value.form with
  | .integer | .percentage => Text.parseInteger value.text
  | .identifier => (slot.symbol? value.text).map (·.value.toInt)
  | .resourceId | .string | .fileReference | .color => none

namespace Blob

variable {b b' : Buffer} {slot : Slot} {value : Value} {n : Int}

/-- A number that a slot has no room for is refused, whatever the blob holds. -/
theorem write_number_refused (b : Buffer) (value : Value)
    (hn : ¬InRange (numberWidth slot) slot.kind.isSigned n) :
    writeNumber b slot n value = .error (if Buffer.isIntegerWidth (numberWidth slot) then
      outOfRange value (.bytes (numberWidth slot))
      else .meaning value.location (.noIntegerWidth slot.name (numberWidth slot))) := by
  unfold writeNumber
  dsimp only
  by_cases hw : Buffer.isIntegerWidth (numberWidth slot) = true
  · have hpos : 0 < numberWidth slot := by
      have := Buffer.is_integer_width.mp hw
      omega
    have hfits : ¬numberFits (numberWidth slot) slot.kind.isSigned n = true :=
      (number_fits_iff hpos).not.mpr hn
    rw [if_neg (by simp [hw]), if_pos (by simpa using hfits), if_pos hw]
  · rw [if_pos (by simpa using hw), if_neg hw]

theorem write_number_keeps (h : writeNumber b slot n value = .ok b') :
    InRange (numberWidth slot) slot.kind.isSigned n ∧
      b'.KeepsNumber b.cursor (numberWidth slot) n := by
  have hn : InRange (numberWidth slot) slot.kind.isSigned n := by
    by_contra hn
    rw [write_number_refused b value hn] at h
    cases h
  unfold writeNumber at h
  dsimp only at h
  split at h
  · cases h
  · rename_i hw
    split at h
    · cases h
    · have hw : Buffer.isIntegerWidth (numberWidth slot) = true := by simpa using hw
      rw [Buffer.writeInteger, if_pos hw] at h
      cases h
      have := Buffer.is_integer_width.mp hw
      exact ⟨hn, b.put_number_keeps (by omega) hn.signed⟩

theorem write_resource_id_keeps (h : writeResourceId b n value = .ok b') :
    InRange 2 true n ∧ b'.KeepsNumber b.cursor 2 n := by
  unfold writeResourceId at h
  split at h
  · rename_i hn
    cases h
    have hrange : InRange 2 true n := by
      constructor
      · simpa using hn.1
      · norm_num
        omega
    exact ⟨hrange, b.put_number_keeps (by decide) hrange⟩
  · cases h

theorem write_digits_keeps (h : (do writeNumber b slot (← value.integer) value) = .ok b') :
    ∃ n, Text.parseInteger value.text = some n ∧
      InRange (numberWidth slot) slot.kind.isSigned n ∧
      b'.KeepsNumber b.cursor (numberWidth slot) n := by
  obtain ⟨n, hn, hwrite⟩ := except_bind_eq_ok.mp h
  exact ⟨n, integer_eq_ok.mp hn, write_number_keeps hwrite⟩

theorem write_symbol_keeps (h : writeSymbol b slot value = .ok b') :
    ∃ symbol, slot.symbol? value.text = some symbol ∧
      InRange (numberWidth slot) slot.kind.isSigned symbol.value.toInt ∧
      b'.KeepsNumber b.cursor (numberWidth slot) symbol.value.toInt := by
  unfold writeSymbol at h
  cases hsymbol : slot.symbol? value.text with
  | none =>
    rw [hsymbol] at h
    cases h
  | some symbol =>
    rw [hsymbol] at h
    refine ⟨symbol, rfl, ?_⟩
    dsimp only at h
    split at h
    · rename_i hkind
      rw [numberWidth, hkind]
      exact write_resource_id_keeps h
    · exact write_number_keeps h

end Blob

/-- What is written for a number, for a percentage and for a symbol keeps the number. -/
theorem Assembly.encode_value_keeps {disk : FileSystem} {id : Int64} {b b' : Buffer} {slot : Slot}
    {value : Value} {a a' : Assembly}
    (hform : value.form = .integer ∨ value.form = .percentage ∨ value.form = .identifier)
    (h : encodeValue disk id b slot value a = (.ok b', a')) :
    ∃ n, slot.numberFor? value = some n ∧
      InRange (Blob.numberWidth slot) slot.kind.isSigned n ∧
      b'.KeepsNumber slot.offset (Blob.numberWidth slot) n := by
  rw [encode_value_plain (by rcases hform with h | h | h <;> simp [h])] at h
  obtain ⟨hplace, -⟩ := Attempt.lift_eq_ok.mp h
  obtain ⟨hwrite, -⟩ := place_value_eq_ok.mp hplace
  rcases hform with hform | hform | hform
  · simp only [Blob.writeValue, hform] at hwrite
    obtain ⟨n, hn, hkept⟩ := Blob.write_digits_keeps hwrite
    exact ⟨n, by rw [Slot.numberFor?, hform, hn], hkept⟩
  · simp only [Blob.writeValue, hform] at hwrite
    obtain ⟨n, hn, hkept⟩ := Blob.write_digits_keeps hwrite
    exact ⟨n, by rw [Slot.numberFor?, hform, hn], hkept⟩
  · simp only [Blob.writeValue, hform] at hwrite
    obtain ⟨symbol, hsymbol, hkept⟩ := Blob.write_symbol_keeps hwrite
    exact ⟨symbol.value.toInt, by rw [Slot.numberFor?, hform, hsymbol]; rfl, hkept⟩

/-- In a buffer of any state an integer of so many bytes is written to be read back, in either
order, and the orders differ only in the direction of the bytes. A number that its slot has no
room for is refused whatever the blob holds, so what the assembler writes keeps its number. -/
theorem integers_survive_encoding (b : Buffer) :
    (∀ (width : Nat) (v : Int), width = 1 ∨ width = 2 ∨ width = 4 ∨ width = 8 →
      -(2 : Int) ^ (8 * width - 1) ≤ v → v ≤ (2 : Int) ^ (8 * width) - 1 →
      ∃ field, ∀ order : ByteOrder, ∃ b', (b.withOrder order).writeInteger v width = .ok b' ∧
        slice? b'.bytes.data.toList b.cursor width = some (order.arrange field) ∧
        order.Keeps width v (order.arrange field)) ∧
    (∀ (slot : Slot) (n : Int) (value : Value),
      ¬InRange (Blob.numberWidth slot) slot.kind.isSigned n →
      Blob.writeNumber b slot n value = .error (if Buffer.isIntegerWidth (Blob.numberWidth slot)
        then Blob.outOfRange value (.bytes (Blob.numberWidth slot))
        else .meaning value.location (.noIntegerWidth slot.name (Blob.numberWidth slot)))) ∧
    (∀ (disk : FileSystem) (id : Int64) (slot : Slot) (value : Value) (a a' : Assembly)
      (b' : Buffer), value.form = .integer ∨ value.form = .percentage ∨ value.form = .identifier →
      Assembly.encodeValue disk id b slot value a = (.ok b', a') →
      ∃ n, slot.numberFor? value = some n ∧
        InRange (Blob.numberWidth slot) slot.kind.isSigned n ∧
        b'.KeepsNumber slot.offset (Blob.numberWidth slot) n) := by
  refine ⟨fun width v hwidth hlow hhigh => ?_,
    fun slot n value => Blob.write_number_refused b value,
    fun disk id slot value a a' b' => Assembly.encode_value_keeps⟩
  have hv : InRange width true v := ⟨by simpa using hlow, hhigh⟩
  refine ⟨ByteOrder.big.encode width (wrap width v), fun order => ?_⟩
  refine ⟨(b.withOrder order).putNumber width v, ?_, ?_, ?_⟩
  · rw [Buffer.writeInteger, if_pos (Buffer.is_integer_width.mpr hwidth)]
  · have h := (b.withOrder order).slice_put (order.encode width (wrap width v))
    rw [ByteOrder.length_encode] at h
    rw [ByteOrder.arrange_encode]
    exact h
  · rw [ByteOrder.arrange_encode]
    exact ByteOrder.keeps_encode order (by omega) hv

/-- A slot of a signed word that has a name for a number below zero. -/
def heading : Slot := ⟨"heading", .integer 2 true, 1, 2, [⟨"back", -180⟩], none⟩

def backward : Value := ⟨.identifier, "back", .unknown⟩

/-- Over the end of a buffer in either order, one number too large for the slot, and its symbol. -/
theorem integers_survive_encoding_heading :
    let b : Buffer := ⟨bytesOf [1, 2, 3], .big, 2⟩
    (∃ field, ∀ order : ByteOrder, ∃ b', (b.withOrder order).writeInteger (-2) 2 = .ok b' ∧
      slice? b'.bytes.data.toList 2 2 = some (order.arrange field) ∧
      order.Keeps 2 (-2) (order.arrange field)) ∧
    Blob.writeNumber b heading 65536 backward =
      .error (.meaning .unknown (.outOfRange "back" (.bytes 2))) ∧
    ∃ b', (Assembly.encodeValue (.fresh []) 1 b heading backward (.start #[])).1 = .ok b' ∧
      b'.KeepsNumber 1 2 (-180) := by
  intro b
  obtain ⟨hwritten, hrefused, hkept⟩ := integers_survive_encoding b
  refine ⟨hwritten 2 (-2) (by decide) (by decide) (by decide),
    hrefused heading 65536 backward (by decide), ?_⟩
  obtain ⟨n, hn, -, hnumber⟩ :=
    hkept (.fresh []) 1 heading backward (.start #[]) _ _ (.inr (.inr rfl)) rfl
  obtain rfl : n = -180 := Option.some.inj hn.symm
  exact ⟨_, rfl, hnumber⟩

end ResourceCompiler

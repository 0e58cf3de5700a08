import ResourceCompiler.Proofs.Binary.Writings

/-!
A buffer that is written at its end. As long as the cursor stays behind the last byte, every write
appends, and no raw write is refused. A part at the start may be written over, if the cursor goes
back to the end afterwards.
-/

namespace ResourceCompiler

/-- Bytes beyond a number's width do not count. -/
theorem low_bytes_mod (width n : Nat) : lowBytes width (n % capacity width) = lowBytes width n := by
  induction width generalizing n with
  | zero => rfl
  | succ width ih =>
    have hlow : UInt8.ofNat (n % capacity (width + 1)) = UInt8.ofNat n := by
      apply UInt8.toNat_inj.mp
      simp [capacity]
    have hhigh : n % capacity (width + 1) / 256 = n / 256 % capacity width := by
      rw [capacity, Nat.mod_mul_right_div_self]
    rw [lowBytes, lowBytes, hlow, hhigh, ih]

theorem ByteOrder.encode_wrap (order : ByteOrder) (width n : Nat) :
    order.encode width (wrap width n) = order.encode width n := by
  have h : wrap width n = n % capacity width := by
    unfold wrap
    omega
  cases order <;> simp only [encode, h, low_bytes_mod]

@[simp] theorem wrap_zero (width : Nat) : wrap width 0 = 0 := by
  simp [wrap]

namespace Buffer

/-- A buffer of some bytes with the cursor behind the last one. -/
def holding (order : ByteOrder) (bytes : List UInt8) : Buffer :=
  ⟨bytesOf bytes, order, bytes.length⟩

variable {order : ByteOrder} {b : Buffer}

@[simp] theorem bytes_holding (order : ByteOrder) (bytes : List UInt8) :
    (holding order bytes).bytes = bytesOf bytes := rfl

@[simp] theorem size_holding (order : ByteOrder) (bytes : List UInt8) :
    (holding order bytes).size = bytes.length := by
  simp [size_eq, bytesOf]

theorem empty_eq_holding (order : ByteOrder) : empty order = holding order [] := rfl

theorem with_order_holding (order order' : ByteOrder) (bytes : List UInt8) :
    (holding order bytes).withOrder order' = holding order' bytes := rfl

theorem byte_at_holding (order : ByteOrder) (bytes : List UInt8) (p : Nat) :
    (holding order bytes).byteAt p = bytes[p]?.getD 0 := rfl

/-- A buffer is given by its size and by what stands at each position. -/
theorem eq_holding {bytes : List UInt8} (horder : b.order = order)
    (hcursor : b.cursor = bytes.length) (hsize : b.size = bytes.length)
    (hbytes : ∀ p, b.byteAt p = bytes[p]?.getD 0) : b = holding order bytes := by
  obtain ⟨stored, order', cursor⟩ := b
  obtain rfl : order' = order := horder
  obtain rfl : cursor = bytes.length := hcursor
  have hstored : stored.data.toList = bytes := by
    rw [size_eq] at hsize
    apply List.ext_getElem hsize
    intro p hp hp'
    have h := hbytes p
    rwa [byteAt, List.getElem?_eq_getElem hp, List.getElem?_eq_getElem hp'] at h
  have hdata : stored = bytesOf bytes := by
    rw [← hstored]
    simp [bytesOf]
  rw [hdata]
  rfl

/-! Writing at the end -/

@[simp] theorem put_holding (bytes more : List UInt8) :
    (holding order bytes).put more = holding order (bytes ++ more) := by
  obtain ⟨horder, hcursor, hsize, hbytes⟩ := put_spec (holding order bytes) more
  refine eq_holding horder ?_ ?_ fun p => ?_
  · rw [hcursor, List.length_append]
    rfl
  · rw [hsize, size_holding, List.length_append]
    exact Nat.max_eq_right (Nat.le_add_right ..)
  · rw [hbytes, byte_at_holding, Writing.byte?, List.getElem?_append]
    change (if bytes.length ≤ p then more[p - bytes.length]? else none).getD _ = _
    by_cases hp : p < bytes.length
    · simp [hp, Nat.not_le.mpr hp]
    · simp [hp, Nat.le_of_not_lt hp]

theorem put_number_holding (bytes : List UInt8) (width : Nat) (value : Int) :
    (holding order bytes).putNumber width value =
      holding order (bytes ++ order.encode width (wrap width value)) :=
  put_holding ..

@[simp] theorem put_nat_holding (bytes : List UInt8) (width n : Nat) :
    (holding order bytes).putNumber width n = holding order (bytes ++ order.encode width n) := by
  rw [put_number_holding, ByteOrder.encode_wrap]

@[simp] theorem write_pascal_holding (bytes : List UInt8) (text : String) :
    (holding order bytes).writePascal text = holding order (bytes ++ pascalBytes text) :=
  put_holding ..

@[simp] theorem write_c_string_holding (bytes : List UInt8) (text : String) (width : Nat) :
    (holding order bytes).writeCString text width =
      holding order (bytes ++ cStringBytes text width) :=
  put_holding ..

/-- At the end raw bytes are always taken. -/
@[simp] theorem write_raw_holding (bytes : List UInt8) (data : ByteArray) :
    (holding order bytes).writeRaw data = pure (holding order (bytes ++ data.data.toList)) := by
  have hend : (holding order bytes).cursor = (holding order bytes).size :=
    (size_holding order bytes).symm
  have hdata : bytesOf bytes ++ data = bytesOf (bytes ++ data.data.toList) := by
    apply ByteArray.ext
    simp [bytesOf]
  have hfill : (holding order bytes).fillTo (holding order bytes).cursor = holding order bytes := by
    rw [fillTo, if_neg (by omega)]
  rw [writeRaw, if_neg (by omega), hfill]
  simp only [holding, List.length_append, Array.length_toList, ByteArray.size_data, hdata]
  rfl

theorem pad_to_holding (bytes : List UInt8) (size : Nat) :
    (holding order bytes).padTo size =
      holding order (bytes ++ List.replicate (size - bytes.length) 0) := by
  have hlength : (bytes ++ List.replicate (size - bytes.length) (0 : UInt8)).length =
      max bytes.length size := by
    rw [List.length_append, List.length_replicate]
    omega
  refine eq_holding (order_pad_to ..) hlength.symm ?_ fun p => ?_
  · rw [size_pad_to, size_holding, hlength]
    change max (max bytes.length bytes.length) size = _
    rw [Nat.max_self]
  · rw [byte_at_pad_to, byte_at_holding, List.getElem?_append, List.getElem?_replicate]
    split
    · rfl
    · rename_i hp
      rw [List.getElem?_eq_none (Nat.not_lt.mp hp)]
      split <;> rfl

/-! Writing over the start -/

theorem put_put (b : Buffer) (first second : List UInt8) :
    (b.put first).put second = b.put (first ++ second) := by
  obtain ⟨-, hcursor, hsize, -⟩ := put_spec b first
  have hfill : (b.put first).fillTo (b.put first).cursor = b.put first := by
    rw [fillTo, if_neg (by omega)]
  rw [put, hfill, put, put, List.foldl_append]

theorem put_nat (b : Buffer) (width n : Nat) :
    b.putNumber width n = b.put (b.order.encode width n) := by
  rw [putNumber, ByteOrder.encode_wrap]

/-- Numbers one behind the other are one run of bytes. -/
theorem put_nat_put (b : Buffer) (bytes : List UInt8) (width n : Nat) :
    (b.put bytes).putNumber width n = b.put (bytes ++ b.order.encode width n) := by
  rw [put_nat, (put_spec b bytes).1, put_put]

/-- New bytes over as many old ones, and back to the end. -/
theorem put_over (order : ByteOrder) {old new : List UInt8} (rest : List UInt8)
    (h : new.length = old.length) :
    (((holding order (old ++ rest)).seek 0).put new).seek (old ++ rest).length =
      holding order (new ++ rest) := by
  obtain ⟨horder, -, hsize, hbytes⟩ := put_spec ((holding order (old ++ rest)).seek 0) new
  have hlength : (new ++ rest).length = (old ++ rest).length := by
    rw [List.length_append, List.length_append, h]
  refine eq_holding horder hlength.symm ?_ fun p => ?_
  · refine hsize.trans ?_
    change max (holding order (old ++ rest)).size (0 + new.length) = _
    rw [size_holding, hlength, List.length_append]
    omega
  · refine (hbytes p).trans ?_
    change ((Writing.mk 0 new).byte? p).getD ((old ++ rest)[p]?.getD 0) = _
    rw [Writing.byte?, List.getElem?_append, List.getElem?_append]
    by_cases hp : p < new.length
    · simp [hp]
    · simp [h ▸ hp, h]

end Buffer

end ResourceCompiler

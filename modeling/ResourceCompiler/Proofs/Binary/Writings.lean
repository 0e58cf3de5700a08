import ResourceCompiler.Binary.Buffer

/-!
A buffer as the outcome of its history. What stands at a position is what the last writing that
reached it put there, and zero where none did.
-/

namespace ResourceCompiler

/-- Bytes that are put at a position. -/
structure Writing where
  position : Nat
  bytes : List UInt8

namespace Writing

/-- Where the bytes behind it start. -/
def limit (w : Writing) : Nat := w.position + w.bytes.length

/-- The byte that it puts at a position, if it reaches there. -/
def byte? (w : Writing) (p : Nat) : Option UInt8 :=
  if w.position ≤ p then w.bytes[p - w.position]? else none

theorem byte_eq_none {w : Writing} {p : Nat} (h : p < w.position ∨ w.limit ≤ p) :
    w.byte? p = none := by
  unfold byte? limit at *
  split
  · exact List.getElem?_eq_none (by omega)
  · rfl

theorem byte_get {w : Writing} {k : Nat} (hk : k < w.bytes.length) :
    w.byte? (w.position + k) = some w.bytes[k] := by
  rw [byte?, if_pos (Nat.le_add_right ..), Nat.add_sub_cancel_left, List.getElem?_eq_getElem hk]

end Writing

/-- What stands at a position after some writings, the first of them on zeros. -/
def shown (ws : List Writing) (p : Nat) : UInt8 :=
  ws.foldl (fun old w => (w.byte? p).getD old) 0

theorem shown_append_one (ws : List Writing) (w : Writing) (p : Nat) :
    shown (ws ++ [w]) p = (w.byte? p).getD (shown ws p) := by
  simp [shown]

/-- A first writing that does not reach a position is as if it were not there. -/
theorem shown_cons {w : Writing} {ws : List Writing} {p : Nat} (h : w.byte? p = none) :
    shown (w :: ws) p = shown ws p := by
  rw [shown, List.foldl_cons, h]
  rfl

/-- Writings that do not reach a position leave what stands there. -/
theorem shown_append_untouched {ws others : List Writing} {p : Nat}
    (h : ∀ w ∈ others, w.byte? p = none) : shown (ws ++ others) p = shown ws p := by
  rw [shown, List.foldl_append, ← shown]
  generalize shown ws p = old
  induction others with
  | nil => rfl
  | cons w rest ih =>
    rw [List.forall_mem_cons] at h
    rw [List.foldl_cons, h.1]
    exact ih h.2

theorem shown_untouched {ws : List Writing} {p : Nat} (h : ∀ w ∈ ws, w.byte? p = none) :
    shown ws p = 0 := by
  rw [← List.nil_append ws]
  exact shown_append_untouched h

namespace Buffer

/-- The byte at a position, and zero beyond the end. -/
def byteAt (b : Buffer) (p : Nat) : UInt8 := (b.bytes.data.toList[p]?).getD 0

theorem size_eq (b : Buffer) : b.size = b.bytes.data.toList.length := by
  rw [Array.length_toList, ByteArray.size_data]
  rfl

theorem is_integer_width {width : Nat} :
    isIntegerWidth width = true ↔ width = 1 ∨ width = 2 ∨ width = 4 ∨ width = 8 := by
  simp [isIntegerWidth, or_assoc]

/-! One byte -/

theorem data_put_byte (b : Buffer) (byte : UInt8) :
    (b.putByte byte).bytes.data.toList =
      if b.cursor < b.size then b.bytes.data.toList.set b.cursor byte
      else b.bytes.data.toList ++ [byte] := by
  unfold putByte
  by_cases h : b.cursor < b.bytes.size
  · rw [dif_pos h, if_pos (show b.cursor < b.size from h)]
    simp [ByteArray.set]
  · rw [dif_neg h, if_neg (show ¬b.cursor < b.size from h)]
    simp

theorem cursor_put_byte (b : Buffer) (byte : UInt8) :
    (b.putByte byte).cursor = b.cursor + 1 := by
  unfold putByte
  split <;> rfl

theorem order_put_byte (b : Buffer) (byte : UInt8) : (b.putByte byte).order = b.order := by
  unfold putByte
  split <;> rfl

theorem size_put_byte {b : Buffer} (byte : UInt8) (hc : b.cursor ≤ b.size) :
    (b.putByte byte).size = max b.size (b.cursor + 1) := by
  rw [size_eq, data_put_byte]
  split
  · rw [List.length_set, ← size_eq]
    omega
  · rw [List.length_append, List.length_singleton, ← size_eq]
    omega

theorem byte_at_put_byte {b : Buffer} (byte : UInt8) (hc : b.cursor ≤ b.size) (p : Nat) :
    (b.putByte byte).byteAt p = if p = b.cursor then byte else b.byteAt p := by
  have hlen := b.size_eq
  rw [byteAt, data_put_byte]
  split
  · rename_i h
    rw [List.getElem?_set]
    by_cases hp : p = b.cursor
    · rw [if_pos hp.symm, if_pos (hlen ▸ h), if_pos hp, Option.getD_some]
    · rw [if_neg (Ne.symm hp), if_neg hp, byteAt]
  · rename_i h
    have he : b.cursor = b.bytes.data.toList.length := by omega
    by_cases hp : p = b.cursor
    · rw [if_pos hp, hp, he, List.getElem?_concat_length, Option.getD_some]
    · rw [if_neg hp, byteAt]
      by_cases hlt : p < b.bytes.data.toList.length
      · rw [List.getElem?_append_left hlt]
      · rw [List.getElem?_append_right (by omega), List.getElem?_eq_none (Nat.not_lt.mp hlt),
          List.getElem?_eq_none (by rw [List.length_singleton]; omega)]

/-! Several bytes -/

theorem size_fill_to (b : Buffer) (size : Nat) : (b.fillTo size).size = max b.size size := by
  unfold fillTo
  split
  · rw [size_eq, ByteArray.data_append, Array.toList_append, List.length_append, ← size_eq, zeros,
      Array.toList_replicate, List.length_replicate]
    omega
  · omega

/-- Filling up with zeros is not seen by position. -/
theorem byte_at_fill_to (b : Buffer) (size p : Nat) : (b.fillTo size).byteAt p = b.byteAt p := by
  unfold fillTo
  split
  · simp only [byteAt, ByteArray.data_append, zeros, Array.toList_append, Array.toList_replicate]
    rw [List.getElem?_append]
    split
    · rfl
    · rw [List.getElem?_replicate, List.getElem?_eq_none (by omega)]
      split <;> rfl
  · rfl

theorem put_eq_fold {b : Buffer} (bytes : List UInt8) (hc : b.cursor ≤ b.size) :
    (bytes.foldl putByte b).order = b.order ∧
      (bytes.foldl putByte b).cursor = b.cursor + bytes.length ∧
      (bytes.foldl putByte b).size = max b.size (b.cursor + bytes.length) ∧
      ∀ p, (bytes.foldl putByte b).byteAt p =
        ((Writing.mk b.cursor bytes).byte? p).getD (b.byteAt p) := by
  induction bytes generalizing b with
  | nil =>
    refine ⟨rfl, rfl, by simp; omega, fun p => ?_⟩
    simp [Writing.byte?]
  | cons byte rest ih =>
    have hsize := size_put_byte byte hc
    have hcursor := cursor_put_byte b byte
    obtain ⟨ho, hcur, hs, hp⟩ := ih (b := b.putByte byte) (by omega)
    rw [List.foldl_cons, List.length_cons]
    refine ⟨ho.trans (order_put_byte b byte), by omega, by omega, fun p => ?_⟩
    rw [hp, byte_at_put_byte byte hc, hcursor]
    simp only [Writing.byte?]
    by_cases h : p = b.cursor
    · simp [h, show ¬b.cursor + 1 ≤ b.cursor by omega]
    · by_cases hle : b.cursor ≤ p
      · obtain ⟨k, rfl⟩ : ∃ k, p = b.cursor + 1 + k := ⟨p - (b.cursor + 1), by omega⟩
        have hk : b.cursor + 1 + k - b.cursor = k + 1 := by omega
        simp [hle, hk, h]
      · simp [hle, h, show ¬b.cursor + 1 ≤ p by omega]

/-- Putting bytes is one writing at the cursor. It may lie beyond the end: the gap reads as zero. -/
theorem put_spec (b : Buffer) (bytes : List UInt8) :
    (b.put bytes).order = b.order ∧ (b.put bytes).cursor = b.cursor + bytes.length ∧
      (b.put bytes).size = max b.size (b.cursor + bytes.length) ∧
      ∀ p, (b.put bytes).byteAt p = ((Writing.mk b.cursor bytes).byte? p).getD (b.byteAt p) := by
  have hs := size_fill_to b b.cursor
  have hc : (b.fillTo b.cursor).cursor = b.cursor := by
    unfold fillTo
    split <;> rfl
  have ho : (b.fillTo b.cursor).order = b.order := by
    unfold fillTo
    split <;> rfl
  obtain ⟨horder, hcursor, hsize, hbytes⟩ :=
    put_eq_fold (b := b.fillTo b.cursor) bytes (by omega)
  simp only [byte_at_fill_to, hc] at hbytes
  exact ⟨horder.trans ho, hcursor.trans (by rw [hc]), hsize.trans (by omega), hbytes⟩

theorem size_pad_to (b : Buffer) (size : Nat) :
    (b.padTo size).size = max (max b.size b.cursor) size := by
  change ((b.fillTo b.cursor).fillTo size).size = _
  rw [size_fill_to, size_fill_to]

theorem byte_at_pad_to (b : Buffer) (size p : Nat) : (b.padTo size).byteAt p = b.byteAt p :=
  (byte_at_fill_to ..).trans (byte_at_fill_to ..)

theorem order_pad_to (b : Buffer) (size : Nat) : (b.padTo size).order = b.order := by
  change ((b.fillTo b.cursor).fillTo size).order = b.order
  unfold fillTo
  split <;> split <;> rfl

/-! Histories -/

/-- A buffer shows some writings: it is as large as its room and they need, and at each position
stands what they left there. -/
structure Shows (b : Buffer) (room : Nat) (ws : List Writing) : Prop where
  size : b.size = (ws.map Writing.limit).foldl max room
  bytes : ∀ p, b.byteAt p = shown ws p

theorem foldl_max (a n : Nat) (ns : List Nat) :
    ns.foldl max (max a n) = max (ns.foldl max a) n := by
  induction ns generalizing a with
  | nil => rfl
  | cons m rest ih => rw [List.foldl_cons, List.foldl_cons, Nat.max_right_comm, ih]

theorem shows_empty (order : ByteOrder) : (Buffer.empty order).Shows 0 [] :=
  ⟨rfl, fun _ => rfl⟩

variable {b : Buffer} {room : Nat} {ws : List Writing}

/-- A writing comes on top of those before. -/
theorem Shows.put (h : b.Shows room ws) (position : Nat) (bytes : List UInt8) :
    ((b.seek position).put bytes).Shows room (ws ++ [⟨position, bytes⟩]) := by
  obtain ⟨-, -, hsize, hbytes⟩ := put_spec (b.seek position) bytes
  constructor
  · rw [hsize, List.map_append, List.foldl_append, ← h.size]
    rfl
  · intro p
    rw [hbytes, shown_append_one, ← h.bytes]
    rfl

/-- Zeros at the end only make room. -/
theorem Shows.pad (h : b.Shows room ws) (size : Nat) :
    (if b.size < size then b.seekEnd.padTo size else b).Shows (max room size) ws := by
  have hgrown : (ws.map Writing.limit).foldl max (max room size) = max b.size size := by
    rw [foldl_max, ← h.size]
  split
  · refine ⟨?_, fun p => (byte_at_pad_to ..).trans (h.bytes p)⟩
    rw [size_pad_to, hgrown]
    change max (max b.size b.size) size = _
    rw [Nat.max_self]
  · exact ⟨by omega, h.bytes⟩

end Buffer

end ResourceCompiler

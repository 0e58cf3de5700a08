import ResourceCompiler.Proofs.Binary.Appending
import ResourceCompiler.Report.Attempt
import ResourceCompiler.Schema.Basic

/-!
A buffer after any operations. Where it has a byte and which one, how large it is and where its
cursor stands all follow from what was done to it, without a look at its bytes: the last write to
reach a position is what stands there.
-/

namespace ResourceCompiler

/-- The byte that the last writing to reach a position left there, and zero if none reaches it. -/
inductive LastWritten (ws : List Writing) (p : Nat) : UInt8 → Prop
  | reached {earlier later : List Writing} {w : Writing} {byte : UInt8}
    (split : ws = earlier ++ w :: later) (here : w.byte? p = some byte)
    (spared : ∀ u ∈ later, u.byte? p = none) : LastWritten ws p byte
  | untouched (spared : ∀ w ∈ ws, w.byte? p = none) : LastWritten ws p 0

theorem LastWritten.append_one {ws : List Writing} {p : Nat} {old : UInt8}
    (h : LastWritten ws p old) (w : Writing) :
    LastWritten (ws ++ [w]) p ((w.byte? p).getD old) := by
  cases hw : w.byte? p with
  | some byte => exact .reached rfl hw (by simp)
  | none =>
    cases h with
    | untouched spared =>
      exact .untouched (List.forall_mem_append.mpr ⟨spared, List.forall_mem_singleton.mpr hw⟩)
    | reached split here spared =>
      exact .reached (by rw [split, List.append_assoc, List.cons_append]) here
        (List.forall_mem_append.mpr ⟨spared, List.forall_mem_singleton.mpr hw⟩)

namespace Buffer

/-! Writes -/

/-- The ways to write at the cursor. -/
inductive Write
  /-- The lowest bytes of a number. -/
  | number (width : Nat) (value : Int)
  /-- The same for a width that is to be checked. -/
  | integer (value : Int) (width : Nat)
  | pascal (text : String)
  | cString (text : String) (length : Nat)
  | raw (data : ByteArray)

namespace Write

def run (b : Buffer) : Write → Except CompileError Buffer
  | number width value => .ok (b.putNumber width value)
  | integer value width => b.writeInteger value width
  | pascal text => .ok (b.writePascal text)
  | cString text length => .ok (b.writeCString text length)
  | raw data => b.writeRaw data

/-- The bytes of a write, in an order for those of numbers. -/
def bytes (order : ByteOrder) : Write → List UInt8
  | number width value | integer value width => order.encode width (wrap width value)
  | pascal text => pascalBytes text
  | cString text length => cStringBytes text length
  | raw data => data.data.toList

/-- Why a write is refused. An integer has 1, 2, 4 or 8 bytes, and raw bytes go over no others. -/
def fault? (cursor size : Nat) : Write → Option LayoutFault
  | integer _ width =>
    if width = 1 ∨ width = 2 ∨ width = 4 ∨ width = 8 then none
    else some (.unsupportedIntegerWidth width)
  | raw _ => if cursor < size then some (.rawDataNotAppended cursor size) else none
  | number _ _ | pascal _ | cString _ _ => none

end Write

/-- With the cursor at its end a buffer is nothing but its bytes. -/
theorem eq_holding_of_end {b : Buffer} (h : b.cursor = b.size) :
    b = holding b.order b.bytes.data.toList :=
  eq_holding rfl (h.trans b.size_eq) b.size_eq fun _ => rfl

/-- Raw bytes that are not refused are put like any others. -/
theorem write_raw_eq (b : Buffer) (data : ByteArray) :
    b.writeRaw data =
      if b.cursor < b.size then .error (.layout (.rawDataNotAppended b.cursor b.size))
      else .ok (b.put data.data.toList) := by
  by_cases hc : b.cursor < b.size
  · rw [writeRaw, if_pos hc, if_pos hc]
  · -- Filled up to its cursor the buffer has the cursor at its end, where both ways only append.
    have hcursor : (b.fillTo b.cursor).cursor = b.cursor := by
      unfold fillTo
      split <;> rfl
    have hend : (b.fillTo b.cursor).cursor = (b.fillTo b.cursor).size := by
      rw [hcursor, size_fill_to]
      omega
    have hfilled : (b.fillTo b.cursor).fillTo b.cursor = b.fillTo b.cursor := by
      rw [fillTo, if_neg (by omega)]
    have hput : (b.fillTo b.cursor).put data.data.toList = b.put data.data.toList := by
      rw [put, hcursor, hfilled, put]
    have hraw : (b.fillTo b.cursor).writeRaw data = b.writeRaw data := by
      rw [writeRaw, if_neg (by omega), hcursor, hfilled, writeRaw, if_neg hc]
    rw [if_neg hc, ← hput, ← hraw, eq_holding_of_end hend, write_raw_holding, put_holding]
    rfl

/-- Every write that is not refused puts its bytes at the cursor. -/
theorem Write.run_eq (b : Buffer) (w : Write) :
    w.run b = match w.fault? b.cursor b.size with
      | some fault => .error (.layout fault)
      | none => .ok (b.put (w.bytes b.order)) := by
  cases w with
  | number | pascal | cString => rfl
  | integer value width =>
    by_cases hw : width = 1 ∨ width = 2 ∨ width = 4 ∨ width = 8
    · simp only [run, fault?, if_pos hw, writeInteger, if_pos (is_integer_width.mpr hw)]
      rfl
    · have hwidth : ¬isIntegerWidth width = true := fun h => hw (is_integer_width.mp h)
      simp only [run, fault?, if_neg hw, writeInteger, if_neg hwidth]
  | raw data =>
    rw [run, write_raw_eq, fault?]
    split <;> rfl

/-! Operations -/

inductive Operation
  | write (w : Write)
  | pad (size : Nat)
  | seek (position : Nat)
  | seekEnd
  | withOrder (order : ByteOrder)

namespace Operation

/-- A refused write leaves the buffer as it was. -/
def perform : Operation → Attempt Buffer Unit
  | write w => fun b =>
    match w.run b with
    | .ok written => (.ok (), written)
    | .error e => (.error e, b)
  | pad size => .modify (·.padTo size)
  | seek position => .modify (·.seek position)
  | seekEnd => .modify Buffer.seekEnd
  | withOrder order => .modify (·.withOrder order)

def leaves (b : Buffer) (op : Operation) : Buffer := (op.perform b).2

/-- Whether only the cursor or the byte order is changed. -/
def Moves : Operation → Prop
  | seek _ | seekEnd | withOrder _ => True
  | write _ | pad _ => False

end Operation

theorem perform_refused {b : Buffer} {w : Write} {fault : LayoutFault}
    (h : w.fault? b.cursor b.size = some fault) :
    (Operation.write w).perform b = (.error (.layout fault), b) := by
  simp only [Operation.perform, w.run_eq, h]

theorem perform_accepted {b : Buffer} {w : Write} (h : w.fault? b.cursor b.size = none) :
    (Operation.write w).perform b = (.ok (), b.put (w.bytes b.order)) := by
  simp only [Operation.perform, w.run_eq, h]

/-- What any operation does to a buffer, whatever was done to it before. -/
structure Steady (b : Buffer) : Prop where
  grows (op : Operation) : b.size ≤ (op.leaves b).size
  moves (op : Operation) : op.Moves → (op.leaves b).bytes = b.bytes
  accepts (w : Write) : w.fault? b.cursor b.size = none →
    ((Operation.write w).perform b).1 = .ok () ∧
      ((Operation.write w).leaves b).cursor = b.cursor + (w.bytes b.order).length
  refuses (w : Write) (fault : LayoutFault) : w.fault? b.cursor b.size = some fault →
    (Operation.write w).perform b = (.error (.layout fault), b)
  pads (size : Nat) : ((Operation.pad size).leaves b).cursor = max b.cursor size ∧
    ∀ p < b.size, ((Operation.pad size).leaves b).byteAt p = b.byteAt p

theorem steady (b : Buffer) : b.Steady where
  grows op := by
    cases op with
    | write w =>
      unfold Operation.leaves
      cases hfault : w.fault? b.cursor b.size with
      | some fault => exact Nat.le_of_eq (by rw [perform_refused hfault])
      | none =>
        rw [perform_accepted hfault, (put_spec b _).2.2.1]
        exact Nat.le_max_left ..
    | pad size =>
      change b.size ≤ (b.padTo size).size
      rw [size_pad_to]
      omega
    | seek | seekEnd | withOrder => exact Nat.le_refl _
  moves op h := by
    cases op with
    | write | pad => exact h.elim
    | seek | seekEnd | withOrder => rfl
  accepts w h := by
    rw [Operation.leaves, perform_accepted h]
    exact ⟨rfl, (put_spec b _).2.1⟩
  refuses w fault h := perform_refused h
  pads size := ⟨rfl, fun p _ => byte_at_pad_to b size p⟩

/-! Histories -/

/-- What was done to a buffer: where its cursor was led, what was written, and how far writes and
pads reached. It has no bytes of its own. -/
structure History where
  order : ByteOrder
  cursor : Nat
  writings : List Writing
  reaches : List Nat

namespace History

def fresh (order : ByteOrder) : History := ⟨order, 0, [], []⟩

/-- A buffer is as large as anything done to it has reached. -/
def size (h : History) : Nat := coveringSize h.reaches

/-- The cursor is led to the end of something, which stands there from then on. -/
def reach (h : History) (position : Nat) : History :=
  { h with cursor := position, reaches := h.reaches ++ [position] }

def put (h : History) (bytes : List UInt8) : History :=
  { h.reach (h.cursor + bytes.length) with writings := h.writings ++ [⟨h.cursor, bytes⟩] }

def after (h : History) : Operation → History
  | .write w =>
    match w.fault? h.cursor h.size with
    | some _ => h
    | none => h.put (w.bytes h.order)
  | .pad size => h.reach (max h.cursor size)
  | .seek position => { h with cursor := position }
  | .seekEnd => { h with cursor := h.size }
  | .withOrder order => { h with order }

/-- A buffer is what its history says. -/
structure Tells (h : History) (b : Buffer) : Prop where
  order : b.order = h.order
  cursor : b.cursor = h.cursor
  size : b.size = h.size
  bytes : ∀ p, LastWritten h.writings p (b.byteAt p)

theorem fresh_tells (order : ByteOrder) : (fresh order).Tells (.empty order) :=
  ⟨rfl, rfl, rfl, fun _ => .untouched (by simp [fresh])⟩

theorem size_reach (h : History) (position : Nat) :
    (h.reach position).size = max h.size position := by
  simp [size, reach, coveringSize]

theorem Tells.put {h : History} {b : Buffer} (t : h.Tells b) (bytes : List UInt8) :
    (h.put bytes).Tells (b.put bytes) := by
  obtain ⟨horder, hcursor, hsize, hbytes⟩ := put_spec b bytes
  refine ⟨horder.trans t.order, ?_, ?_, fun p => ?_⟩
  · rw [hcursor, t.cursor]
    rfl
  · rw [hsize, t.size, t.cursor]
    exact (h.size_reach _).symm
  · rw [hbytes, t.cursor]
    exact (t.bytes p).append_one _

theorem Tells.pad {h : History} {b : Buffer} (t : h.Tells b) (size : Nat) :
    (h.reach (max h.cursor size)).Tells (b.padTo size) where
  order := (order_pad_to b size).trans t.order
  cursor := congrArg (max · size) t.cursor
  size := by rw [size_pad_to, t.size, t.cursor, size_reach, Nat.max_assoc]
  bytes p := by
    rw [byte_at_pad_to]
    exact t.bytes p

/-- What is accepted and what is refused is known from the history as well. -/
theorem Tells.after {h : History} {b : Buffer} (t : h.Tells b) (op : Operation) :
    (h.after op).Tells (op.leaves b) := by
  cases op with
  | write w =>
    unfold History.after Operation.leaves
    cases hfault : w.fault? b.cursor b.size with
    | some fault =>
      rw [perform_refused hfault]
      rw [t.cursor, t.size] at hfault
      simp only [hfault]
      exact t
    | none =>
      rw [perform_accepted hfault]
      rw [t.cursor, t.size] at hfault
      simp only [hfault, t.order]
      exact t.put _
  | pad size => exact t.pad size
  | seek position => exact ⟨t.order, rfl, t.size, t.bytes⟩
  | seekEnd => exact ⟨t.order, t.size, t.size, t.bytes⟩
  | withOrder order => exact ⟨rfl, t.cursor, t.size, t.bytes⟩

theorem Tells.after_all {h : History} {b : Buffer} (t : h.Tells b) (operations : List Operation) :
    (operations.foldl History.after h).Tells (operations.foldl Operation.leaves b) := by
  induction operations generalizing h b with
  | nil => exact t
  | cons op rest ih => exact ih (t.after op)

end History

/-- After any operations a buffer is what its history says, and the next one does to it what that
operation always does. -/
theorem buffer_shows_latest_writes (order : ByteOrder) (operations : List Operation) :
    let b := operations.foldl Operation.leaves (.empty order)
    (operations.foldl History.after (.fresh order)).Tells b ∧ b.Steady :=
  ⟨(History.fresh_tells order).after_all operations, steady _⟩

/-- The second write goes over a letter of the first, and none reaches the positions 3 and 4. -/
example : ([.write (.pascal "AB"), .seek 1, .write (.number 1 7), .seek 5,
    .write (.number 1 9)].foldl Operation.leaves (.empty .big)).bytes.data.toList =
      [2, 7, 66, 0, 0, 9] := by decide +kernel

end Buffer

end ResourceCompiler

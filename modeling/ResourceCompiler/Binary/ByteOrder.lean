/-!
Numbers as bytes of a fixed count, in either order, and back.
-/

namespace ResourceCompiler

inductive ByteOrder
  | big | little
deriving DecidableEq, Repr, Inhabited

/-- The lowest `width` bytes of a number, the least significant first. -/
def lowBytes : (width : Nat) → Nat → List UInt8
  | 0, _ => []
  | width + 1, n => UInt8.ofNat n :: lowBytes width (n / 256)

/-- The number whose bytes these are, the least significant first. -/
def bytesValue : List UInt8 → Nat
  | [] => 0
  | b :: rest => b.toNat + 256 * bytesValue rest

/-- How many numbers there are of `width` bytes. -/
def capacity : (width : Nat) → Nat
  | 0 => 1
  | width + 1 => 256 * capacity width

/-- What is left of an integer in `width` bytes: two's complement below zero. -/
def wrap (width : Nat) (value : Int) : Nat := (value % capacity width).toNat

namespace ByteOrder

/-- The lowest `width` bytes of a number, in this order. -/
def encode (order : ByteOrder) (width n : Nat) : List UInt8 :=
  match order with
  | .big => (lowBytes width n).reverse
  | .little => lowBytes width n

/-- The number that was written in this order. -/
def decode (order : ByteOrder) (bytes : List UInt8) : Nat :=
  match order with
  | .big => bytesValue bytes.reverse
  | .little => bytesValue bytes

end ByteOrder

theorem length_low_bytes (width n : Nat) : (lowBytes width n).length = width := by
  induction width generalizing n with
  | zero => rfl
  | succ width ih => simp [lowBytes, ih]

/-- Reading what was written gives the number back up to what its bytes could not hold. -/
theorem bytes_value_low_bytes (width n : Nat) :
    bytesValue (lowBytes width n) = n % capacity width := by
  induction width generalizing n with
  | zero => simp [lowBytes, bytesValue, capacity, Nat.mod_one]
  | succ width ih =>
    rw [lowBytes, bytesValue, ih, capacity, Nat.mod_mul]
    rfl

theorem ByteOrder.length_encode (order : ByteOrder) (width n : Nat) :
    (order.encode width n).length = width := by
  cases order <;> simp [encode, length_low_bytes]

theorem ByteOrder.decode_encode (order : ByteOrder) (width n : Nat) :
    order.decode (order.encode width n) = n % capacity width := by
  cases order <;> simp [encode, decode, bytes_value_low_bytes]

end ResourceCompiler

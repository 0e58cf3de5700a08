import ResourceCompiler.Container.Layout
import Mathlib.Data.List.Basic

/-!
Reading a file by position. A block of bytes holds at a position; what was written there in one
piece is found there piece by piece, and a reader that only knows the position gets it back.
-/

namespace ResourceCompiler

/-- The bytes from a position on, if the file has so many. -/
def slice? (file : List UInt8) (position count : Nat) : Option (List UInt8) :=
  if position + count ≤ file.length then some ((file.drop position).take count) else none

/-- The big-endian number of so many bytes at a position. -/
def number? (file : List UInt8) (position width : Nat) : Option Nat :=
  (slice? file position width).map ByteOrder.big.decode

/-- The integer that a field of `width` bytes stands for in two's complement. -/
def signedValue (width field : Nat) : Int :=
  if 2 * field < capacity width then field else (field : Int) - capacity width

/-- A block of bytes stands in a file at a position. -/
def Holds (file : List UInt8) (position : Nat) (block : List UInt8) : Prop :=
  ∃ before after, file = before ++ (block ++ after) ∧ before.length = position

namespace Holds

variable {file a b block : List UInt8} {position : Nat}

theorem whole (file : List UInt8) : Holds file 0 file := ⟨[], [], by simp, rfl⟩

theorem left (h : Holds file position (a ++ b)) : Holds file position a := by
  obtain ⟨before, after, hf, hp⟩ := h
  exact ⟨before, b ++ after, by simp [hf], hp⟩

theorem right (h : Holds file position (a ++ b)) : Holds file (position + a.length) b := by
  obtain ⟨before, after, hf, hp⟩ := h
  exact ⟨before ++ a, after, by simp [hf], by simp [hp]⟩

theorem within (h : Holds file position block) : position + block.length ≤ file.length := by
  obtain ⟨before, after, rfl, rfl⟩ := h
  simp only [List.length_append]
  omega

/-- The bytes of a block are read where the block holds. -/
theorem slice (h : Holds file position block) : slice? file position block.length = some block := by
  have hw := h.within
  obtain ⟨before, after, rfl, rfl⟩ := h
  rw [slice?, if_pos hw]
  simp

/-- A number that fits its field is read back. -/
theorem number {width n : Nat} (h : Holds file position (ByteOrder.big.encode width n))
    (hn : n < capacity width) : number? file position width = some n := by
  have hs := h.slice
  rw [ByteOrder.length_encode] at hs
  rw [number?, hs, Option.map_some, ByteOrder.decode_encode, Nat.mod_eq_of_lt hn]

end Holds

/-- What stands at each position of a block is what is read there. -/
theorem slice_of_bytes {file block : List UInt8} {position : Nat}
    (hin : position + block.length ≤ file.length)
    (h : ∀ k (hk : k < block.length), (file[position + k]?).getD 0 = block[k]) :
    slice? file position block.length = some block := by
  rw [slice?, if_pos hin]
  refine congrArg some (List.ext_getElem ?_ fun k hk hk' => ?_)
  · rw [List.length_take, List.length_drop]
    omega
  · have hp := h k hk'
    rw [List.getElem?_eq_getElem (by omega), Option.getD_some] at hp
    rw [List.getElem_take, List.getElem_drop, hp]

/-- A number that is too large for its field leaves its remainder there. -/
theorem wrap_lt_capacity (width : Nat) (value : Int) : wrap width value < capacity width := by
  have hc : 0 < capacity width := by
    induction width with
    | zero => exact Nat.one_pos
    | succ width ih => exact Nat.mul_pos (by decide) ih
  have h1 := Int.emod_lt_of_pos value (by exact_mod_cast hc : (0 : Int) < capacity width)
  have h2 := Int.emod_nonneg value (by omega : (capacity width : Int) ≠ 0)
  unfold wrap
  omega

/-- Two's complement gives back every integer of its range. -/
theorem signed_value_wrap {width : Nat} {value : Int} (low : -(capacity width : Int) ≤ 2 * value)
    (high : 2 * value < capacity width) : signedValue width (wrap width value) = value := by
  unfold signedValue wrap
  by_cases hv : 0 ≤ value
  · rw [Int.emod_eq_of_lt hv (by omega)]
    rw [if_pos (by omega)]
    omega
  · have he : value % (capacity width : Int) = value + capacity width := by
      rw [← Int.add_emod_right, Int.emod_eq_of_lt (by omega) (by omega)]
    rw [he, if_neg (by omega)]
    omega

/-- A count that is stored less one comes back, the count 0 by wrapping round. -/
theorem wrap_pred {width count : Nat} (hc : count < capacity width) :
    (wrap width ((count : Int) - 1) + 1) % capacity width = count := by
  unfold wrap
  by_cases h0 : count = 0
  · subst h0
    have he : ((0 : Nat) - 1 : Int) % (capacity width : Int) = (capacity width : Int) - 1 := by
      rw [← Int.add_emod_right, Int.emod_eq_of_lt (by omega) (by omega)]
      omega
    rw [he]
    have hs : ((capacity width : Int) - 1).toNat + 1 = capacity width := by omega
    rw [hs, Nat.mod_self]
  · rw [Int.emod_eq_of_lt (by omega) (by omega)]
    have hs : ((count : Int) - 1).toNat + 1 = count := by omega
    rw [hs, Nat.mod_eq_of_lt hc]

/-- Without wrapping round it is one more than what is stored. -/
theorem wrap_pred_succ {width count : Nat} (h0 : 0 < count) (hc : count < capacity width) :
    wrap width ((count : Int) - 1) + 1 = count := by
  unfold wrap
  rw [Int.emod_eq_of_lt (by omega) (by omega)]
  omega

namespace Layout

/-! Neighbouring blocks -/

theorem length_starts (first : Nat) (sizes : List Nat) :
    (starts first sizes).length = sizes.length := by
  induction sizes generalizing first with
  | nil => rfl
  | cons size rest ih => simp [starts, ih]

/-- A block starts behind all blocks in front of it. -/
theorem starts_get (first : Nat) (sizes : List Nat) (i : Nat) (hi : i < sizes.length) :
    (starts first sizes)[i]? = some (first + total (sizes.take i)) := by
  induction sizes generalizing first i with
  | nil => simp at hi
  | cons size rest ih =>
    cases i with
    | zero => simp [starts, total]
    | succ i =>
      have hr : i < rest.length := by simpa using hi
      simp [starts, total, ih (first + size) i hr, Nat.add_assoc]

theorem total_append (a b : List Nat) : total (a ++ b) = total a + total b := by
  induction a with
  | nil => simp [total]
  | cons size rest ih => simp [total, ih, Nat.add_assoc]

theorem total_perm {sizes others : List Nat} (h : sizes.Perm others) :
    total sizes = total others := by
  induction h with
  | nil => rfl
  | cons size _ ih => rw [total, total, ih]
  | swap size next rest => simp [total, Nat.add_left_comm]
  | trans _ _ ih ih' => exact ih.trans ih'

theorem total_take_succ_le (sizes : List Nat) (k : Nat) (hk : k < sizes.length) :
    total (sizes.take k) + sizes[k] ≤ total sizes := by
  have hsplit : total sizes = total (sizes.take k) + (sizes[k] + total (sizes.drop (k + 1))) := by
    rw [← total, ← List.drop_eq_getElem_cons hk, ← total_append, List.take_append_drop]
  omega

theorem length_flatten_eq_total (blocks : List (List UInt8)) :
    blocks.flatten.length = total (blocks.map List.length) := by
  induction blocks with
  | nil => rfl
  | cons block rest ih => simp [total, ih]

/-- Blocks of one size make up a multiple of it. -/
theorem total_replicate (count size : Nat) : total (List.replicate count size) = size * count := by
  induction count with
  | zero => rfl
  | succ count ih => rw [List.replicate_succ, total, ih, Nat.mul_succ, Nat.add_comm]

theorem length_flatten_of_equal {blocks : List (List UInt8)} {size : Nat}
    (h : ∀ b ∈ blocks, b.length = size) : blocks.flatten.length = size * blocks.length := by
  have he : blocks.map List.length = List.replicate blocks.length size := by
    rw [List.eq_replicate_iff]
    exact ⟨by simp, by simpa using h⟩
  rw [length_flatten_eq_total, he, total_replicate]

end Layout

/-- Of blocks that were written one behind the other each stands behind those in front of it. -/
theorem Holds.block {file : List UInt8} {position i : Nat} {blocks : List (List UInt8)}
    {block : List UInt8} (h : Holds file position blocks.flatten) (hi : blocks[i]? = some block) :
    Holds file (position + total ((blocks.take i).map List.length)) block := by
  obtain ⟨hlt, rfl⟩ := List.getElem?_eq_some_iff.mp hi
  have hsplit : blocks.flatten =
      (blocks.take i).flatten ++ (blocks[i] ++ (blocks.drop (i + 1)).flatten) := by
    rw [← List.flatten_cons, ← List.drop_eq_getElem_cons hlt, ← List.flatten_append,
      List.take_append_drop]
  rw [hsplit] at h
  rw [← Layout.length_flatten_eq_total]
  exact h.right.left

/-- The same for blocks of one size. -/
theorem Holds.equal_block {file : List UInt8} {position i size : Nat} {blocks : List (List UInt8)}
    {block : List UInt8} (h : Holds file position blocks.flatten)
    (hs : ∀ b ∈ blocks, b.length = size) (hi : blocks[i]? = some block) :
    Holds file (position + size * i) block := by
  have hlt := (List.getElem?_eq_some_iff.mp hi).1
  have he : (blocks.take i).map List.length = List.replicate i size := by
    rw [List.eq_replicate_iff, List.length_map, List.length_take]
    refine ⟨Nat.min_eq_left (Nat.le_of_lt hlt), fun n hn => ?_⟩
    obtain ⟨b, hb, rfl⟩ := List.mem_map.mp hn
    exact hs b (List.mem_of_mem_take hb)
  have hb := h.block hi
  rwa [he, Layout.total_replicate] at hb

/-- Reading one thing after the other gives all of them if each reading does. -/
theorem map_m_range {α : Type} {read : Nat → Option α} {found : List α}
    (h : ∀ i x, found[i]? = some x → read i = some x) :
    (List.range found.length).mapM read = some found := by
  induction found generalizing read with
  | nil => rfl
  | cons x rest ih =>
    have hx := h 0 x rfl
    have hrest : (List.range rest.length).mapM (fun i => read (i + 1)) = some rest :=
      ih fun i y hy => h (i + 1) y (by simpa using hy)
    rw [List.length_cons, List.range_succ_eq_map, List.mapM_cons, List.mapM_map]
    simp only [hx, Function.comp_def, Nat.succ_eq_add_one, hrest, Option.bind_eq_bind,
      Option.bind_some, Option.pure_def]

end ResourceCompiler

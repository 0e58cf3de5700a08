import ResourceCompiler.Text.Integer

/-!
Numbers written in decimal digits are read back as they are.
-/

namespace ResourceCompiler.Text

theorem is_digit_of_mem_repr {n : Nat} {c : Char} (h : c ∈ (toString n).toList) :
    c.isDigit = true :=
  Nat.isDigit_of_mem_toDigits (by decide) (by decide) (Nat.toList_repr ▸ h)

theorem repr_ne_nil (n : Nat) : (toString n).toList ≠ [] := by
  change n.repr.toList ≠ []
  rw [Nat.toList_repr]
  exact Nat.toDigits_ne_nil

theorem digits_value_repr (n : Nat) : digitsValue? (toString n).toList = some n := by
  have hdigits : (toString n).toList.all Char.isDigit = true :=
    List.all_eq_true.mpr fun c hc => is_digit_of_mem_repr hc
  have hvalue : (toString n).toList.foldl (fun value c => value * 10 + (c.toNat - '0'.toNat)) 0 =
      n := by
    change n.repr.toList.foldl _ 0 = n
    rw [Nat.toList_repr]
    have h := Nat.ofDigitChars_toDigits (b := 10) (n := n) (by decide) (by decide)
    simpa only [Nat.ofDigitChars, Nat.mul_comm 10] using h
  have hempty : (toString n).toList.isEmpty = false :=
    List.isEmpty_eq_false_iff.mpr (repr_ne_nil n)
  rw [digitsValue?, hempty, hdigits, hvalue]
  rfl

theorem not_grouping_mark_of_is_digit {c : Char} (h : c.isDigit = true) :
    isGroupingMark c = false := by
  refine Bool.eq_false_iff.mpr fun hmark => ?_
  rcases Bool.or_eq_true_iff.mp hmark with hc | hc <;>
    (rw [beq_iff_eq.mp hc] at h; exact absurd h (by decide))

/-- No sign and no grouping mark stands among digits. -/
theorem parse_integer_repr {n : Nat} (h : (n : Int) < literalLimit) :
    parseInteger (toString n) = some (n : Int) := by
  have hfilter : (toString n).toList.filter (fun c => !isGroupingMark c) = (toString n).toList :=
    List.filter_eq_self.mpr fun c hc => by
      rw [not_grouping_mark_of_is_digit (is_digit_of_mem_repr hc), Bool.not_false]
  have hsigned : signedValue? (toString n).toList = some (n : Int) := by
    unfold signedValue?
    split
    · rename_i heq
      exact absurd (is_digit_of_mem_repr (heq ▸ List.mem_cons_self)) (by decide)
    · rename_i heq
      exact absurd (is_digit_of_mem_repr (heq ▸ List.mem_cons_self)) (by decide)
    · rw [digits_value_repr]
      rfl
  have hfits : fitsLiteral n = true := by
    unfold fitsLiteral
    unfold literalLimit at h ⊢
    rw [Bool.and_eq_true, decide_eq_true_eq, decide_eq_true_eq]
    omega
  rw [parseInteger, hfilter, hsigned, Option.filter_some, if_pos hfits]

theorem narrow64_to_int (v : Int64) : narrow64? v.toInt = some v := by
  rw [narrow64?, if_pos ⟨Int64.minValue_le_toInt v, Int64.toInt_le v⟩, Int64.ofInt_toInt]

theorem narrow64_eq_some {n : Int} {v : Int64} : narrow64? n = some v ↔ v.toInt = n := by
  constructor
  · intro h
    unfold narrow64? at h
    split at h
    · rename_i hn
      obtain rfl := Option.some.inj h
      rw [Int64.toInt_minValue, Int64.toInt_maxValue] at hn
      exact Int64.toInt_ofInt_of_le (by omega) (by omega)
    · cases h
  · rintro rfl
    exact narrow64_to_int v

/-- The digits of a number that is not below zero. -/
theorem parse_int64_repr {v : Int64} (h : 0 ≤ v) :
    parseInt64 (toString v.toInt.toNat) = some v := by
  have hlow : 0 ≤ v.toInt := Int64.le_iff_toInt_le.mp h
  have hhigh := Int64.toInt_le v
  rw [Int64.toInt_maxValue] at hhigh
  rw [parseInt64, parse_integer_repr (by unfold literalLimit; omega), Option.bind_some,
    Int.toNat_of_nonneg hlow, narrow64_to_int]

/-- The digits of a number below zero, without its sign. They may write one more than the greatest
number of 64 bits. -/
theorem parse_negated_repr {v : Int64} (h : v < 0) :
    ((parseInteger (toString (-v.toInt).toNat)).bind fun n => narrow64? (-n)) = some v := by
  have hhigh : v.toInt < 0 := Int64.lt_iff_toInt_lt.mp h
  have hlow := Int64.le_toInt v
  rw [parse_integer_repr (by unfold literalLimit; omega), Option.bind_some,
    Int.toNat_of_nonneg (by omega), Int.neg_neg, narrow64_to_int]

theorem parse_byte_count_repr {n : Nat} (h : n < 0x10000000000000000) :
    parseByteCount (toString n) = some n := by
  rw [parseByteCount, parse_integer_repr (by unfold literalLimit; omega), Option.bind_some,
    if_pos (by omega), Int.toNat_natCast]

end ResourceCompiler.Text

import ResourceCompiler.Report.Attempt
import ResourceCompiler.Proofs.Text.Decimal
import ResourceCompiler.Schema.IdMapping
import Mathlib.Data.List.Induction

/-!
Id mappings beside the same operations on unbounded numbers. The two agree as long as no operation
divides by zero and no result on the way leaves the numbers of 64 bits; the first operation that
does one or the other decides the error.
-/

namespace ResourceCompiler

/-- An operator on unbounded numbers. A quotient is cut towards zero. -/
def IdOperator.exact : IdOperator → Int → Int → Int
  | .add, acc, operand => acc + operand
  | .subtract, acc, operand => acc - operand
  | .multiply, acc, operand => acc * operand
  | .divide, acc, operand => acc.tdiv operand

namespace IdMapping

/-- What operations make of zero, one after the other, on unbounded numbers. -/
def exactResult (parent : Int64) (operations : List (IdOperator × IdOperand)) : Int :=
  operations.foldl (fun acc operation =>
    operation.1.exact acc (operandValue parent operation.2).toInt) 0

def DividesByZero (parent : Int64) (operation : IdOperator × IdOperand) : Prop :=
  operation.1 = .divide ∧ operandValue parent operation.2 = 0

/-- A number of 64 bits. -/
def FitsId (n : Int) : Prop := Int64.minValue.toInt ≤ n ∧ n ≤ Int64.maxValue.toInt

/-- No operation divides by zero, and the result behind each is a number of 64 bits. -/
def Calculable (parent : Int64) (operations : List (IdOperator × IdOperand)) : Prop :=
  ∀ front operation, front ++ [operation] <+: operations →
    ¬DividesByZero parent operation ∧ FitsId (exactResult parent (front ++ [operation]))

/-- What is wrong with an operation behind others. -/
inductive Breaks (parent : Int64) (front : List (IdOperator × IdOperand))
    (operation : IdOperator × IdOperand) : MeaningFault → Prop
  | division : DividesByZero parent operation → Breaks parent front operation .mappingDividesByZero
  | range : ¬DividesByZero parent operation → ¬FitsId (exactResult parent (front ++ [operation])) →
    Breaks parent front operation .mappingOverflow

variable {parent v : Int64} {operations : List (IdOperator × IdOperand)}
  {operation : IdOperator × IdOperand} {fault : MeaningFault}

theorem fits_id_iff {n : Int} : FitsId n ↔ ∃ v : Int64, v.toInt = n := by
  constructor
  · intro h
    refine ⟨.ofInt n, ?_⟩
    rw [FitsId, Int64.toInt_minValue, Int64.toInt_maxValue] at h
    exact Int64.toInt_ofInt_of_le (by omega) (by omega)
  · rintro ⟨v, rfl⟩
    exact ⟨Int64.minValue_le_toInt v, Int64.toInt_le v⟩

theorem in_range_eq_ok {n : Int} : inRange n = .ok v ↔ v.toInt = n := by
  rw [← Text.narrow64_eq_some, inRange]
  split <;> simp_all

theorem in_range_eq_error {n : Int} :
    inRange n = .error fault ↔ ¬FitsId n ∧ fault = .mappingOverflow := by
  have hfits : FitsId n ↔ Text.narrow64? n ≠ none := by
    simp only [fits_id_iff, ← Text.narrow64_eq_some, Option.ne_none_iff_exists']
  rw [hfits, inRange]
  cases Text.narrow64? n with
  | none => simp [eq_comm]
  | some v => simp

/-! One operation -/

theorem apply_of_division {operator : IdOperator} {acc operand : Int64}
    (h : operator = .divide ∧ operand = 0) :
    apply operator acc operand = .error .mappingDividesByZero := by
  obtain ⟨rfl, rfl⟩ := h
  rfl

/-- Every operator is its exact one, cut to the numbers of 64 bits. -/
theorem apply_of_not_division {operator : IdOperator} {acc operand : Int64}
    (h : ¬(operator = .divide ∧ operand = 0)) :
    apply operator acc operand = inRange (operator.exact acc.toInt operand.toInt) := by
  cases operator with
  | add => rfl
  | subtract => rfl
  | multiply => rfl
  | divide => exact if_neg fun hzero => h ⟨rfl, hzero⟩

theorem exact_result_append : exactResult parent (operations ++ [operation]) =
    operation.1.exact (exactResult parent operations)
      (operandValue parent operation.2).toInt := by
  simp [exactResult]

theorem evaluate_append : evaluate ⟨operations ++ [operation]⟩ parent =
    evaluate ⟨operations⟩ parent >>= fun acc =>
      apply operation.1 acc (operandValue parent operation.2) := by
  simp [evaluate]

/-- The result so far is exact, so the next one is, if there is one. -/
theorem apply_eq_ok {acc : Int64} (hacc : acc.toInt = exactResult parent operations) :
    apply operation.1 acc (operandValue parent operation.2) = .ok v ↔
      ¬DividesByZero parent operation ∧
        v.toInt = exactResult parent (operations ++ [operation]) := by
  by_cases hzero : DividesByZero parent operation
  · simp [apply_of_division hzero, hzero]
  · rw [apply_of_not_division hzero, in_range_eq_ok, hacc, exact_result_append]
    simp [hzero]

theorem apply_eq_error {acc : Int64} (hacc : acc.toInt = exactResult parent operations) :
    apply operation.1 acc (operandValue parent operation.2) = .error fault ↔
      Breaks parent operations operation fault := by
  by_cases hzero : DividesByZero parent operation
  · rw [apply_of_division hzero]
    constructor
    · intro h
      cases h
      exact .division hzero
    · intro h
      cases h with
      | division => rfl
      | range hnot => exact absurd hzero hnot
  · rw [apply_of_not_division hzero, in_range_eq_error, hacc, ← exact_result_append]
    constructor
    · rintro ⟨hfits, rfl⟩
      exact .range hzero hfits
    · intro h
      cases h with
      | division hdivides => exact absurd hdivides hzero
      | range _ hfits => exact ⟨hfits, rfl⟩

/-! All operations -/

/-- With one more operation behind the others, each is one of the others or the last. -/
theorem prefix_append_iff {front : List (IdOperator × IdOperand)} {last : IdOperator × IdOperand} :
    front ++ [operation] <+: operations ++ [last] ↔
      front = operations ∧ operation = last ∨ front ++ [operation] <+: operations := by
  rw [List.prefix_concat_iff, List.append_singleton_inj]

theorem calculable_nil : Calculable parent [] := by
  intro front operation h
  simp at h

theorem calculable_append : Calculable parent (operations ++ [operation]) ↔
    Calculable parent operations ∧ ¬DividesByZero parent operation ∧
      FitsId (exactResult parent (operations ++ [operation])) := by
  constructor
  · intro h
    exact ⟨fun front op hop => h front op (hop.trans (List.prefix_append _ _)),
      h operations operation (List.prefix_refl _)⟩
  · rintro ⟨hfront, hlast⟩ front op hop
    rcases prefix_append_iff.mp hop with ⟨rfl, rfl⟩ | hop
    · exact hlast
    · exact hfront front op hop

theorem Calculable.fits (h : Calculable parent operations) :
    FitsId (exactResult parent operations) := by
  induction operations using List.reverseRecOn with
  | nil => exact fits_id_iff.mpr ⟨0, rfl⟩
  | append_singleton operations operation => exact (calculable_append.mp h).2.2

theorem evaluate_eq_ok : evaluate ⟨operations⟩ parent = .ok v ↔
    Calculable parent operations ∧ v.toInt = exactResult parent operations := by
  induction operations using List.reverseRecOn generalizing v with
  | nil =>
    have hzero : v.toInt = 0 ↔ 0 = v := by rw [← Int64.toInt_zero, Int64.toInt_inj, eq_comm]
    simpa [evaluate, exactResult, calculable_nil, pure, Except.pure] using hzero.symm
  | append_singleton operations operation ih =>
    rw [evaluate_append, except_bind_eq_ok, calculable_append]
    constructor
    · rintro ⟨acc, hacc, happly⟩
      obtain ⟨hfront, hexact⟩ := ih.mp hacc
      obtain ⟨hzero, hv⟩ := (apply_eq_ok hexact).mp happly
      exact ⟨⟨hfront, hzero, fits_id_iff.mpr ⟨v, hv⟩⟩, hv⟩
    · rintro ⟨⟨hfront, hzero, -⟩, hv⟩
      obtain ⟨acc, hexact⟩ := fits_id_iff.mp hfront.fits
      exact ⟨acc, ih.mpr ⟨hfront, hexact⟩, (apply_eq_ok hexact).mpr ⟨hzero, hv⟩⟩

theorem evaluate_eq_error : evaluate ⟨operations⟩ parent = .error fault ↔
    ∃ front operation, front ++ [operation] <+: operations ∧ Calculable parent front ∧
      Breaks parent front operation fault := by
  induction operations using List.reverseRecOn with
  | nil => simp [evaluate, pure, Except.pure]
  | append_singleton operations operation ih =>
    rw [evaluate_append, except_bind_eq_error, ih]
    constructor
    · rintro (⟨front, op, hop, hbreaks⟩ | ⟨acc, hacc, happly⟩)
      · exact ⟨front, op, hop.trans (List.prefix_append _ _), hbreaks⟩
      · obtain ⟨hfront, hexact⟩ := evaluate_eq_ok.mp hacc
        exact ⟨operations, operation, List.prefix_refl _, hfront,
          (apply_eq_error hexact).mp happly⟩
    · rintro ⟨front, op, hop, hfront, hbreaks⟩
      rcases prefix_append_iff.mp hop with ⟨rfl, rfl⟩ | hop
      · obtain ⟨acc, hexact⟩ := fits_id_iff.mp hfront.fits
        exact .inr ⟨acc, evaluate_eq_ok.mpr ⟨hfront, hexact⟩, (apply_eq_error hexact).mpr hbreaks⟩
      · exact .inl ⟨front, op, hop, hfront, hbreaks⟩

/-- A mapping gives the exact result if no operation divides by zero and every result on the way is
a number of 64 bits. Otherwise it gives the error of the first operation that is at fault. -/
theorem mapping_is_exact (mapping : IdMapping) (parent : Int64) :
    (∀ v, mapping.evaluate parent = .ok v ↔
      Calculable parent mapping.operations ∧
        v.toInt = exactResult parent mapping.operations) ∧
    ∀ fault, mapping.evaluate parent = .error fault ↔
      ∃ front operation, front ++ [operation] <+: mapping.operations ∧
        Calculable parent front ∧ Breaks parent front operation fault :=
  ⟨fun _ => evaluate_eq_ok, fun _ => evaluate_eq_error⟩

/-- The least number divided by -1 is one more than the greatest. -/
example : evaluate ⟨[(.add, .literal .minValue), (.divide, .literal (-1))]⟩ 0 =
    .error .mappingOverflow := by decide

/-- The last result would fit, but the one before it does not. -/
example : evaluate ⟨[(.add, .parent), (.multiply, .literal 2), (.divide, .literal 2)]⟩ .maxValue =
    .error .mappingOverflow := by decide

end IdMapping

end ResourceCompiler

import ResourceCompiler.Report.Attempt
import ResourceCompiler.Schema.Basic
import ResourceCompiler.Proofs.Binary.Writings

/-!
The sizes that a type requires. They are computed in words of the machine and looked up nowhere
else, so they are right as long as every slot ends where a buffer can hold its bytes. A definition
may place a slot further out.
-/

namespace ResourceCompiler

theorem covering_size_cons (n : Nat) (ns : List Nat) :
    coveringSize (n :: ns) = max n (coveringSize ns) := by
  rw [coveringSize, List.foldl_cons, Buffer.foldl_max, Nat.max_comm]
  rfl

/-- A size covers blocks exactly if none of them ends behind it. -/
theorem covering_size_le {ns : List Nat} {size : Nat} :
    coveringSize ns ≤ size ↔ ∀ n ∈ ns, n ≤ size := by
  induction ns with
  | nil => simp [coveringSize]
  | cons n rest ih => rw [covering_size_cons, Nat.max_le, ih, List.forall_mem_cons]

theorem Buffer.check_size_eq_ok {size : Nat} {u : Unit} :
    checkSize size = .ok u ↔ size ≤ maxSize := by
  unfold checkSize
  split <;> simp [*]

namespace Slot

/-- The slot ends where a buffer can hold its bytes. -/
def InReach (s : Slot) : Prop := s.limit ≤ Buffer.maxSize

instance (s : Slot) : Decidable s.InReach := inferInstanceAs (Decidable (_ ≤ _))

theorem checked_limit_eq_ok {s : Slot} {limit : Nat} :
    s.checkedLimit = .ok limit ↔ s.limit ≤ maxWord ∧ limit = s.limit := by
  unfold checkedLimit
  split <;> simp [*, eq_comm]

theorem InReach.le_max_word {s : Slot} (h : s.InReach) : s.limit ≤ maxWord :=
  Nat.le_trans h (by decide)

end Slot

namespace Field

theorem checked_size_eq_ok {f : Field} {size : Nat} :
    f.checkedSize = .ok size ↔ (∀ s ∈ f.slots, s.limit ≤ Slot.maxWord) ∧ size = f.requiredSize := by
  have hlimits := except_map_m_eq_ok (fun s _ => Slot.checked_limit_eq_ok (s := s)) f.slots
  unfold checkedSize
  simp only [except_bind_eq_ok, hlimits]
  constructor
  · rintro ⟨_, ⟨hwords, rfl⟩, hsize⟩
    cases hsize
    exact ⟨hwords, rfl⟩
  · rintro ⟨hwords, rfl⟩
    exact ⟨_, ⟨hwords, rfl⟩, rfl⟩

theorem checked_size_of_reach {f : Field} (h : ∀ s ∈ f.slots, s.InReach) :
    f.checkedSize = .ok f.requiredSize :=
  checked_size_eq_ok.mpr ⟨fun s hs => (h s hs).le_max_word, rfl⟩

theorem required_size_of_reach {f : Field} (h : ∀ s ∈ f.slots, s.InReach) :
    f.requiredSize ≤ Buffer.maxSize :=
  covering_size_le.mpr (List.forall_mem_map.mpr h)

end Field

/-- The required size of a type is right if its slots are in reach. -/
theorem Schema.checked_size_of_reach {schema : Schema}
    (h : ∀ f ∈ schema.fields, ∀ s ∈ f.slots, s.InReach) :
    schema.checkedSize = .ok schema.requiredSize := by
  have hsizes := except_map_m_eq_ok (fun f _ => Field.checked_size_eq_ok (f := f)) schema.fields
  refine except_bind_eq_ok.mpr ⟨_, (hsizes _).mpr ⟨fun f hf s hs => ?_, rfl⟩, rfl⟩
  exact (h f hf s hs).le_max_word

end ResourceCompiler

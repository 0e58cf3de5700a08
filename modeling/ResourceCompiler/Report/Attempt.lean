import ResourceCompiler.Report.Error

/-!
Work on a state that may fail. What was done before a failure stays done, so a failure hands the
state back as well.
-/

namespace ResourceCompiler

/-- Both parts succeed, where no state is handed on. -/
theorem except_bind_eq_ok {ε α β : Type} {x : Except ε α} {f : α → Except ε β} {b : β} :
    x >>= f = .ok b ↔ ∃ a, x = .ok a ∧ f a = .ok b := by
  cases x with
  | error e => simp [bind, Except.bind]
  | ok a => simp [bind, Except.bind]

/-- One of the parts fails. -/
theorem except_bind_eq_error {ε α β : Type} {x : Except ε α} {f : α → Except ε β} {e : ε} :
    x >>= f = .error e ↔ x = .error e ∨ ∃ a, x = .ok a ∧ f a = .error e := by
  cases x with
  | error e' => simp [bind, Except.bind]
  | ok a => simp [bind, Except.bind]

/-- If each part has a condition and a result, so have all parts together. -/
theorem except_map_m_eq_ok {ε α β : Type} {f : α → Except ε β} {p : α → Prop} {g : α → β}
    (hf : ∀ x y, f x = .ok y ↔ p x ∧ y = g x) (xs : List α) (ys : List β) :
    xs.mapM f = .ok ys ↔ (∀ x ∈ xs, p x) ∧ ys = xs.map g := by
  induction xs generalizing ys with
  | nil => simp [pure, Except.pure, eq_comm]
  | cons x xs ih =>
    simp only [List.mapM_cons, except_bind_eq_ok, hf, ih, pure, Except.pure, Except.ok.injEq,
      List.forall_mem_cons, List.map_cons]
    constructor
    · rintro ⟨_, ⟨hx, rfl⟩, _, ⟨hxs, rfl⟩, rfl⟩
      exact ⟨⟨hx, hxs⟩, rfl⟩
    · rintro ⟨⟨hx, hxs⟩, rfl⟩
      exact ⟨_, ⟨hx, rfl⟩, _, ⟨hxs, rfl⟩, rfl⟩

def Attempt (σ α : Type) : Type := σ → Except CompileError α × σ

namespace Attempt

variable {σ α β : Type}

def succeed (a : α) : Attempt σ α := fun s => (.ok a, s)

def fail (e : CompileError) : Attempt σ α := fun s => (.error e, s)

/-- Goes on with the state and the result of the first part, unless that failed. -/
def andThen (first : Attempt σ α) (next : α → Attempt σ β) : Attempt σ β := fun s =>
  match first s with
  | (.ok a, s') => next a s'
  | (.error e, s') => (.error e, s')

instance : Monad (Attempt σ) where
  pure := succeed
  bind := andThen

/-- A result that does not depend on the state. -/
def lift : Except CompileError α → Attempt σ α
  | .ok a => succeed a
  | .error e => fail e

def get : Attempt σ σ := fun s => (.ok s, s)

def modify (f : σ → σ) : Attempt σ Unit := fun s => (.ok (), f s)

@[simp] theorem pure_apply (a : α) (s : σ) : (pure a : Attempt σ α) s = (.ok a, s) := rfl

@[simp] theorem succeed_apply (a : α) (s : σ) : succeed a s = (.ok a, s) := rfl

@[simp] theorem fail_apply (e : CompileError) (s : σ) :
    (fail e : Attempt σ α) s = (.error e, s) := rfl

@[simp] theorem modify_apply (f : σ → σ) (s : σ) : modify f s = (.ok (), f s) := rfl

@[simp] theorem lift_ok (a : α) : (lift (.ok a) : Attempt σ α) = succeed a := rfl

@[simp] theorem lift_error (e : CompileError) : (lift (.error e) : Attempt σ α) = fail e := rfl

theorem bind_apply (first : Attempt σ α) (next : α → Attempt σ β) (s : σ) :
    (first >>= next) s = match first s with
      | (.ok a, s') => next a s'
      | (.error e, s') => (.error e, s') := rfl

theorem bind_ok {first : Attempt σ α} {next : α → Attempt σ β} {s s' : σ} {a : α}
    (h : first s = (.ok a, s')) : (first >>= next) s = next a s' := by
  rw [bind_apply, h]

theorem bind_error {first : Attempt σ α} {next : α → Attempt σ β} {s s' : σ} {e : CompileError}
    (h : first s = (.error e, s')) : (first >>= next) s = (.error e, s') := by
  rw [bind_apply, h]

/-- Both parts succeed, the second from where the first ended. -/
theorem bind_eq_ok {first : Attempt σ α} {next : α → Attempt σ β} {s s' : σ} {b : β} :
    (first >>= next) s = (.ok b, s') ↔
      ∃ a s₁, first s = (.ok a, s₁) ∧ next a s₁ = (.ok b, s') := by
  rw [bind_apply]
  rcases first s with ⟨e | a, s₁⟩
  · simp
  · constructor
    · exact fun h => ⟨a, s₁, rfl, h⟩
    · rintro ⟨_, _, h, hn⟩
      cases h
      exact hn

theorem lift_eq_ok {r : Except CompileError α} {s s' : σ} {a : α} :
    lift r s = (.ok a, s') ↔ r = .ok a ∧ s' = s := by
  cases r <;> simp [eq_comm]

theorem map_id (x : Attempt σ α) : id <$> x = x := by
  funext s
  change (match x s with | (.ok a, s') => (.ok a, s') | (.error e, s') => (.error e, s')) = x s
  rcases x s with ⟨_ | _, _⟩ <;> rfl

theorem bind_assoc {γ : Type} (x : Attempt σ α) (f : α → Attempt σ β) (g : β → Attempt σ γ) :
    x >>= f >>= g = x >>= fun a => f a >>= g := by
  funext s
  simp only [bind_apply]
  rcases x s with ⟨_ | _, _⟩ <;> rfl

instance : LawfulMonad (Attempt σ) :=
  LawfulMonad.mk' _ map_id (fun _ _ => rfl) bind_assoc

end Attempt

end ResourceCompiler

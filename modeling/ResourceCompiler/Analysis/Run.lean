import ResourceCompiler.Analysis.Basic

/-!
Reading block after block up to the end of the input or the first error. Every step that succeeds
leaves the stream nearer to its end, so there is a last one.
-/

namespace ResourceCompiler

open TokenStream

namespace Analysis

theorem stream_parse {α : Type} (p : Parser α) (s : Analysis) :
    ∃ count, (parse p s).2.stream = s.stream.advance count := ⟨_, rfl⟩

/-- A required token is read if it is there. -/
theorem progressed_ensure {condition : Condition} {s s' : Analysis} {t : Token}
    (h : parse (Parser.ensure condition) s = (.ok t, s')) : Progressed s.stream s'.stream := by
  simp only [parse, TokenStream.parse, Parser.ensure] at h
  cases hu : s.stream.unread with
  | nil => simp [hu] at h
  | cons first rest =>
    simp only [hu] at h
    split at h
    · simp only [List.length_cons, Nat.add_sub_cancel_left, Prod.mk.injEq] at h
      rw [← h.2]
      exact progressed_next (by simp [hu])
    · simp at h

theorem Progressed.parse {α : Type} {before : TokenStream} {p : Parser α} {s s' : Analysis}
    {r : Except CompileError α} (hb : Progressed before s.stream)
    (h : Analysis.parse p s = (r, s')) : Progressed before s'.stream := by
  obtain ⟨count, hc⟩ := stream_parse p s
  rw [h] at hc
  rw [hc]
  exact hb.advance count

/-- What a part of a step needs to be: it only moves the stream forward. -/
def KeepsProgress {α : Type} (a : Attempt Analysis α) : Prop :=
  ∀ before s, Progressed before s.stream → Progressed before (a s).2.stream

theorem keeps_progress_parse {α : Type} (p : Parser α) : KeepsProgress (parse p) :=
  fun _ _ hb => Progressed.parse hb rfl

theorem keeps_progress_bind {α β : Type} {a : Attempt Analysis α} {f : α → Attempt Analysis β}
    (ha : KeepsProgress a) (hf : ∀ x, KeepsProgress (f x)) : KeepsProgress (a >>= f) := by
  intro before s hb
  have := ha before s hb
  rw [Attempt.bind_apply]
  rcases hr : a s with ⟨_ | x, s'⟩
  · simpa [hr] using this
  · rw [hr] at this
    exact hf x before s' this

theorem keeps_progress_lift {α : Type} (r : Except CompileError α) :
    KeepsProgress (Attempt.lift r) := by
  intro _ _ hb
  cases r <;> exact hb

theorem keeps_progress_modify {f : Analysis → Analysis} (hf : ∀ s, (f s).stream = s.stream) :
    KeepsProgress (Attempt.modify f) := by
  intro _ s hb
  rw [Attempt.modify_apply, hf s]
  exact hb

theorem keeps_progress_output : KeepsProgress output :=
  keeps_progress_bind (keeps_progress_parse _) fun _ => keeps_progress_modify fun _ => rfl

theorem keeps_progress_define (head : Token) : KeepsProgress (define head) :=
  keeps_progress_bind (keeps_progress_parse _) fun _ =>
    keeps_progress_bind (fun _ _ hb => hb) fun _ =>
      keeps_progress_bind (keeps_progress_lift _) fun _ => keeps_progress_modify fun _ => rfl

/-- Imported tokens come below the tokens that were read to get them. -/
theorem nearer_import {w : Surroundings} {head : Token} {before : TokenStream} {s s' : Analysis}
    (hb : Progressed before s.stream) (h : importFiles w head s = (.ok (), s')) :
    Nearer s'.stream before := by
  unfold importFiles at h
  rw [Attempt.bind_apply] at h
  split at h
  · rename_i requested s₁ hp
    have hb₁ := Progressed.parse hb hp
    split at h
    · simp at h
    · cases hr : w.readImports requested with
      | error e =>
        rw [hr, Attempt.lift_error, Attempt.bind_error (Attempt.fail_apply e s₁)] at h
        simp at h
      | ok tokens =>
        rw [hr, Attempt.lift_ok, Attempt.bind_ok (Attempt.succeed_apply tokens s₁)] at h
        unfold insertTokens at h
        split at h
        · rename_i hd
          simp only [Prod.mk.injEq, true_and] at h
          rw [← h]
          exact hb₁.nearer_splice hd tokens
        · simp at h
  · simp at h

theorem nearer_directive {w : Surroundings} {s s' : Analysis}
    (h : directive w s = (.ok (), s')) : Nearer s'.stream s.stream := by
  unfold directive at h
  rw [Attempt.bind_apply] at h
  split at h
  · rename_i head s₁ hp
    have hb := progressed_ensure hp
    unfold runDirective at h
    split at h
    · have := keeps_progress_output _ _ hb
      rw [h] at this
      exact this.nearer
    · split at h
      · exact nearer_import hb h
      · split at h
        · have := keeps_progress_define head _ _ hb
          rw [h] at this
          exact this.nearer
        · simp at h
  · simp at h

theorem nearer_declare {s s' : Analysis} (h : declare s = (.ok (), s')) :
    Nearer s'.stream s.stream := by
  unfold declare declaration at h
  rw [Attempt.bind_assoc, Attempt.bind_apply] at h
  split at h
  · rename_i head s₁ hp
    have hb := progressed_ensure hp
    have := keeps_progress_bind (a := Attempt.get >>= fun a => parse (Declaration.body a.registry))
      (keeps_progress_bind (fun _ _ hb => hb) fun _ => keeps_progress_parse _)
      (fun trees => keeps_progress_modify (f := fun s =>
        { s with instances := s.instances ++ InstanceTree.flattenAll trees }) fun _ => rfl) _ _ hb
    rw [h] at this
    exact this.nearer
  · simp at h

theorem nearer_step {w : Surroundings} {s s' : Analysis} (h : step w s = (.ok (), s')) :
    Nearer s'.stream s.stream := by
  unfold step at h
  split at h
  · exact nearer_directive h
  · split at h
    · exact nearer_declare h
    · split at h <;> simp at h

/-- Reads all blocks. -/
def run (w : Surroundings) (s : Analysis) : Except CompileError Unit × Analysis :=
  if s.stream.isFinished then (.ok (), s)
  else
    match _h : step w s with
    | (.ok (), s') => run w s'
    | (.error e, s') => (.error e, s')
termination_by s.stream
decreasing_by exact nearer_step _h

end Analysis

end ResourceCompiler

import ResourceCompiler.Source.Stream

/-!
Why reading comes to an end although imports add tokens. Every token lies at a depth, imports add
tokens only one level below a token that was just read, and there are only so many levels. So the
counts of unread tokens by depth fall in lexicographic order.
-/

namespace ResourceCompiler

/-- The order on the first `levels` numbers of two sequences: the first difference decides. -/
def LexLess : (levels : Nat) → (Nat → Nat) → (Nat → Nat) → Prop
  | 0, _, _ => False
  | levels + 1, f, g =>
    f 0 < g 0 ∨ (f 0 = g 0 ∧ LexLess levels (fun i => f (i + 1)) (fun i => g (i + 1)))

theorem lex_less_well_founded (levels : Nat) : WellFounded (LexLess levels) := by
  induction levels with
  | zero => exact ⟨fun f => ⟨f, fun _ h => h.elim⟩⟩
  | succ levels ih =>
    refine Subrelation.wf (r := InvImage (Prod.Lex (· < ·) (LexLess levels))
      (fun f : Nat → Nat => (f 0, fun i => f (i + 1)))) ?_ (InvImage.wf _ ⟨?_⟩)
    · rintro f g (h | ⟨h, hl⟩)
      · exact Prod.Lex.left _ _ h
      · change Prod.Lex _ _ (f 0, _) (g 0, _)
        rw [h]
        exact Prod.Lex.right _ hl
    · intro p
      exact (Prod.lexAccessible (Nat.lt_wfRel.wf.apply p.1) ih.apply p.2)

/-- A fall at one level decides if no level in front of it rises. -/
theorem lex_less_of_fall {levels : Nat} {f g : Nat → Nat} (level : Nat) (hl : level < levels)
    (before : ∀ i < level, f i ≤ g i) (fall : f level < g level) : LexLess levels f g := by
  induction levels generalizing level f g with
  | zero => omega
  | succ levels ih =>
    cases level with
    | zero => exact Or.inl fall
    | succ level =>
      rcases Nat.lt_or_eq_of_le (before 0 (by omega)) with h | h
      · exact Or.inl h
      · exact Or.inr ⟨h, ih level (by omega) (fun i hi => before (i + 1) (by omega)) fall⟩

namespace TokenStream

/-- The unread tokens at one depth. -/
def unreadAt (depth : Nat) : List Segment → Nat
  | [] => 0
  | s :: rest => (if s.depth = depth then s.unread.length else 0) + unreadAt depth rest

/-- All unread tokens. -/
def unreadCount : List Segment → Nat
  | [] => 0
  | s :: rest => s.unread.length + unreadCount rest

theorem unread_at_drop_exhausted (depth : Nat) (segments : List Segment) :
    unreadAt depth (dropExhausted segments) = unreadAt depth segments := by
  induction segments with
  | nil => rfl
  | cons s rest ih =>
    unfold dropExhausted at ih ⊢
    rw [List.dropWhile_cons]
    split
    · rename_i h
      have h' : s.unread = [] := by simpa [Segment.isExhausted] using h
      simp [ih, unreadAt, h']
    · rfl

theorem unread_count_drop_exhausted (segments : List Segment) :
    unreadCount (dropExhausted segments) = unreadCount segments := by
  induction segments with
  | nil => rfl
  | cons s rest ih =>
    unfold dropExhausted at ih ⊢
    rw [List.dropWhile_cons]
    split
    · rename_i h
      have h' : s.unread = [] := by simpa [Segment.isExhausted] using h
      simp [ih, unreadCount, h']
    · rfl

/-- Reading takes one token away, at the depth that it is read at. -/
theorem unread_at_next_in {segments rest : List Segment} {t : Token} {depth : Nat}
    (h : nextIn segments = some (t, rest, depth)) :
    unreadCount rest + 1 = unreadCount segments ∧
      ∀ d, unreadAt d rest + (if d = depth then 1 else 0) = unreadAt d segments := by
  induction segments with
  | nil => simp [nextIn] at h
  | cons s others ih =>
    unfold nextIn at h
    split at h
    · rename_i hs
      have hs' : s.unread = [] := by simpa using hs
      obtain ⟨hc, ha⟩ := ih h
      exact ⟨by simp [unreadCount, hs', hc], fun d => by simp [unreadAt, hs', ha d]⟩
    · rename_i first hs
      obtain ⟨others', hs'⟩ := List.head?_eq_some_iff.mp hs
      simp only [Option.some.injEq, Prod.mk.injEq] at h
      obtain ⟨_, rfl, rfl⟩ := h
      refine ⟨?_, fun d => ?_⟩
      · rw [unread_count_drop_exhausted]
        simp only [unreadCount, Segment.afterOne, hs', List.tail_cons, List.length_cons]
        omega
      · rw [unread_at_drop_exhausted]
        simp only [unreadAt, Segment.afterOne, hs', List.tail_cons, List.length_cons]
        by_cases hd : s.depth = d
        · simp only [hd, if_true]
          omega
        · simp [hd, Ne.symm hd]

theorem next_in_eq_none {segments : List Segment} (h : nextIn segments = none) :
    unreadIn segments = [] := by
  induction segments with
  | nil => rfl
  | cons s rest ih =>
    unfold nextIn at h
    split at h
    · rename_i hs
      rw [unread_in_cons, ih h]
      simpa using hs
    · simp at h

/-- Tokens were read between two states, and the last of them at the depth of the later one. -/
structure Progressed (before after : TokenStream) : Prop where
  fall : unreadAt after.depth after.segments < unreadAt after.depth before.segments
  countFall : unreadCount after.segments < unreadCount before.segments
  noRise : ∀ d, unreadAt d after.segments ≤ unreadAt d before.segments

theorem progressed_next {s : TokenStream} (h : s.unread ≠ []) : Progressed s s.next.2 := by
  unfold next
  cases hn : nextIn s.segments with
  | none => exact absurd (next_in_eq_none hn) h
  | some found =>
    obtain ⟨t, rest, depth⟩ := found
    obtain ⟨hc, ha⟩ := unread_at_next_in hn
    refine ⟨?_, ?_, fun d => ?_⟩
    · have := ha depth
      simp only [if_true] at this
      dsimp only
      omega
    · dsimp only
      omega
    · have := ha d
      dsimp only
      omega

theorem Progressed.next {before after : TokenStream} (h : Progressed before after) :
    Progressed before after.next.2 := by
  unfold TokenStream.next
  cases hn : nextIn after.segments with
  | none =>
    refine ⟨?_, ?_, fun d => Nat.zero_le _⟩
    · exact Nat.lt_of_le_of_lt (Nat.zero_le _) h.fall
    · exact Nat.lt_of_le_of_lt (Nat.zero_le _) h.countFall
  | some found =>
    obtain ⟨t, rest, depth⟩ := found
    obtain ⟨hc, ha⟩ := unread_at_next_in hn
    refine ⟨?_, ?_, fun d => ?_⟩
    · have := ha depth
      have := h.noRise depth
      simp only [if_true] at *
      omega
    · have := h.countFall
      dsimp only
      omega
    · have := ha d
      have := h.noRise d
      dsimp only
      omega

theorem Progressed.advance {before after : TokenStream} (h : Progressed before after)
    (count : Nat) : Progressed before (after.advance count) := by
  induction count generalizing after with
  | zero => exact h
  | succ count ih => exact ih h.next

theorem unread_at_splice (s : TokenStream) (tokens : List Token) (d : Nat) :
    unreadAt d (s.splice tokens).segments =
      unreadAt d s.segments + (if d = s.depth + 1 then tokens.length else 0) := by
  unfold splice
  cases tokens with
  | nil => simp [unread_at_drop_exhausted]
  | cons t ts =>
    simp only [List.isEmpty_cons, Bool.false_eq_true, if_false, unreadAt, unread_at_drop_exhausted,
      Segment.fresh]
    by_cases hd : s.depth + 1 = d
    · simp [hd, Nat.add_comm]
    · simp [hd, Ne.symm hd]

/-- Imports may lie at most this deep. -/
def depthLimit : Nat := 64

/-- The unread tokens by depth, and behind the depths that imports can start from all of them. -/
def weight (s : TokenStream) (level : Nat) : Nat :=
  if level < depthLimit then unreadAt level s.segments else unreadCount s.segments

/-- One state is nearer to the end than another. -/
def Nearer (after before : TokenStream) : Prop :=
  LexLess (depthLimit + 1) after.weight before.weight

theorem nearer_well_founded : WellFounded Nearer :=
  InvImage.wf weight (lex_less_well_founded _)

instance : WellFoundedRelation TokenStream := ⟨Nearer, nearer_well_founded⟩

theorem Progressed.nearer {before after : TokenStream} (h : Progressed before after) :
    Nearer after before := by
  refine lex_less_of_fall depthLimit (Nat.lt_succ_self _) ?_ ?_
  · intro level hl
    simp only [weight, hl, if_true]
    exact h.noRise level
  · simp only [weight, Nat.lt_irrefl, if_false]
    exact h.countFall

/-- Tokens may be spliced in where some were read above the limit. -/
theorem Progressed.nearer_splice {before after : TokenStream} (h : Progressed before after)
    (shallow : after.depth < depthLimit) (tokens : List Token) :
    Nearer (after.splice tokens) before := by
  refine lex_less_of_fall after.depth (Nat.lt_succ_of_lt shallow) ?_ ?_
  · intro level hl
    have hlimit : level < depthLimit := Nat.lt_trans hl shallow
    have hne : ¬ level = after.depth + 1 := by omega
    simp only [weight, hlimit, if_true, unread_at_splice, hne, if_false, Nat.add_zero]
    exact h.noRise level
  · have hne : ¬ after.depth = after.depth + 1 := by omega
    simp only [weight, shallow, if_true, unread_at_splice, hne, if_false, Nat.add_zero]
    exact h.fall

end TokenStream

end ResourceCompiler

import ResourceCompiler.Source.Progress

/-!
A stream as one list: the unread tokens in reading order, each with the depth of its segment. All
that reading does, and all that a splice adds, can be said about this list.
-/

namespace ResourceCompiler.TokenStream

/-- The unread tokens of some segments, each with its depth. -/
def layeredIn (segments : List Segment) : List (Token × Nat) :=
  segments.flatMap fun s => s.unread.map (·, s.depth)

def layered (s : TokenStream) : List (Token × Nat) := layeredIn s.segments

/-- Tokens that all lie at one depth. -/
def atDepth (depth : Nat) (tokens : List Token) : List (Token × Nat) := tokens.map (·, depth)

theorem at_depth_append (depth : Nat) (first second : List Token) :
    atDepth depth (first ++ second) = atDepth depth first ++ atDepth depth second :=
  List.map_append

theorem map_fst_at_depth (depth : Nat) (tokens : List Token) :
    (atDepth depth tokens).map Prod.fst = tokens := by
  simp [atDepth, Function.comp_def]

theorem length_at_depth (depth : Nat) (tokens : List Token) :
    (atDepth depth tokens).length = tokens.length :=
  List.length_map _

theorem layered_in_cons (s : Segment) (rest : List Segment) :
    layeredIn (s :: rest) = atDepth s.depth s.unread ++ layeredIn rest := rfl

theorem layered_in_exhausted {s : Segment} (h : s.unread = []) (rest : List Segment) :
    layeredIn (s :: rest) = layeredIn rest := by
  simp [layered_in_cons, atDepth, h]

theorem unread_in_eq (segments : List Segment) :
    unreadIn segments = (layeredIn segments).map Prod.fst := by
  induction segments with
  | nil => rfl
  | cons s rest ih =>
    rw [unread_in_cons, layered_in_cons, List.map_append, map_fst_at_depth, ih]

theorem unread_eq (s : TokenStream) : s.unread = s.layered.map Prod.fst := unread_in_eq _

theorem layered_in_drop_exhausted (segments : List Segment) :
    layeredIn (dropExhausted segments) = layeredIn segments := by
  induction segments with
  | nil => rfl
  | cons s rest ih =>
    unfold dropExhausted at ih ⊢
    rw [List.dropWhile_cons]
    split
    · rename_i h
      rw [ih, layered_in_exhausted (by simpa [Segment.isExhausted] using h)]
    · rfl

theorem next_in_eq_layered (segments : List Segment) :
    match nextIn segments with
    | none => layeredIn segments = []
    | some (t, rest, depth) => layeredIn segments = (t, depth) :: layeredIn rest := by
  induction segments with
  | nil => rfl
  | cons s rest ih =>
    unfold nextIn
    cases hu : s.unread with
    | nil => simpa only [List.head?_nil, layered_in_exhausted hu] using ih
    | cons t unread =>
      simp [layered_in_drop_exhausted, layered_in_cons, atDepth, Segment.afterOne, hu]

theorem next_of_nil {s : TokenStream} (h : s.layered = []) :
    s.next = (none, { s with segments := [] }) := by
  have hn := next_in_eq_layered s.segments
  unfold next
  cases hs : nextIn s.segments with
  | none => rfl
  | some found =>
    rw [hs] at hn
    exact absurd (h.symm.trans hn) (by simp)

theorem next_of_cons {s : TokenStream} {t : Token} {depth : Nat} {rest : List (Token × Nat)}
    (h : s.layered = (t, depth) :: rest) :
    s.next.1 = some t ∧ s.next.2.layered = rest ∧ s.next.2.last = t.location ∧
      s.next.2.depth = depth := by
  have hn := next_in_eq_layered s.segments
  unfold next
  cases hs : nextIn s.segments with
  | none =>
    rw [hs] at hn
    exact absurd (h.symm.trans hn) (by simp)
  | some found =>
    rw [hs] at hn
    have he := h.symm.trans hn
    simp only [List.cons.injEq, Prod.mk.injEq] at he
    obtain ⟨⟨rfl, rfl⟩, rfl⟩ := he
    exact ⟨rfl, rfl, rfl, rfl⟩

/-- Reading drops tokens from the front. -/
theorem layered_advance (s : TokenStream) (count : Nat) :
    (s.advance count).layered = s.layered.drop count := by
  induction count generalizing s with
  | zero => rfl
  | succ count ih =>
    rw [advance, ih]
    cases h : s.layered with
    | nil => simp [next_of_nil h, layered, layeredIn]
    | cons first rest => rw [(next_of_cons h).2.1, List.drop_succ_cons]

theorem unread_advance (s : TokenStream) (count : Nat) :
    (s.advance count).unread = s.unread.drop count := by
  rw [unread_eq, layered_advance, List.map_drop, ← unread_eq]

/-- The stream remembers place and depth of the last token that was read. -/
theorem last_advance (s : TokenStream) (count : Nat) :
    ((s.advance count).last, (s.advance count).depth) =
      ((s.layered.take count).getLast?.map fun (t, depth) => (t.location, depth)).getD
        (s.last, s.depth) := by
  induction count generalizing s with
  | zero => rfl
  | succ count ih =>
    rw [advance, ih]
    cases h : s.layered with
    | nil => simp [next_of_nil h, layered, layeredIn]
    | cons first rest =>
      obtain ⟨-, hr, hl, hd⟩ := next_of_cons h
      rw [hr, hl, hd, List.take_succ_cons, List.getLast?_cons]
      cases (rest.take count).getLast? <;> rfl

/-- Spliced tokens come first, one level below the last token that was read. -/
theorem layered_splice (s : TokenStream) (tokens : List Token) :
    (s.splice tokens).layered = atDepth (s.depth + 1) tokens ++ s.layered := by
  unfold splice
  cases tokens with
  | nil => exact layered_in_drop_exhausted _
  | cons t ts =>
    simp only [List.isEmpty_cons, Bool.false_eq_true, if_false, layered, layered_in_cons,
      layered_in_drop_exhausted, Segment.fresh]

theorem layered_of_tokens (tokens : List Token) : (ofTokens tokens).layered = atDepth 0 tokens := by
  cases tokens with
  | nil => rfl
  | cons t ts => simp [ofTokens, layered, layeredIn, Segment.fresh, atDepth]

theorem is_finished_iff (s : TokenStream) : s.isFinished = true ↔ s.layered = [] := by
  simp [isFinished, layered, layeredIn, Segment.isExhausted]

/-- Looking ahead goes on into the segments behind. -/
theorem peek_eq (s : TokenStream) (ahead : Nat) : s.peek? ahead = s.unread[ahead]? := by
  unfold peek? unread
  induction s.segments generalizing ahead with
  | nil => rfl
  | cons segment rest ih =>
    rw [peekIn, unread_in_cons, List.getElem?_append]
    by_cases h : ahead < segment.unread.length
    · simp [h]
    · have hnone : segment.unread[ahead]? = none := List.getElem?_eq_none (Nat.not_lt.mp h)
      simp only [hnone, h, if_false]
      exact ih _

theorem peek_zero (s : TokenStream) : s.peek? 0 = s.unread.head? := by
  rw [peek_eq, List.head?_eq_getElem?]

end ResourceCompiler.TokenStream

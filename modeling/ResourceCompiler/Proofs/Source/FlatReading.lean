import ResourceCompiler.Proofs.Source.Layers

/-!
A stream is read as one list. Tokens may be spliced in, read and looked at in any order: the answers
are those of a list to whose front tokens are added and from whose front they are taken. Every token
that came in is read once or is still unread.
-/

namespace ResourceCompiler

namespace Segment

/-- How many of the tokens were read. -/
def position (s : Segment) : Nat := s.tokens.length - s.unread.length

theorem unread_eq_drop (s : Segment) : s.unread = s.tokens.drop s.position :=
  List.suffix_iff_eq_drop.mp s.within

theorem position_le (s : Segment) : s.position ≤ s.tokens.length := Nat.sub_le _ _

theorem position_of_exhausted {s : Segment} (h : s.unread = []) :
    s.position = s.tokens.length := by
  simp [position, h]

theorem position_after_one {s : Segment} (h : s.unread ≠ []) :
    s.afterOne.position = s.position + 1 := by
  have hunread := List.length_pos_iff.mpr h
  have hwithin := s.within.length_le
  simp only [position, afterOne, List.length_tail]
  omega

end Segment

namespace TokenStream

/-- What is done with a stream. -/
inductive Operation
  | splice (tokens : List Token)
  | next
  | peek (ahead : Nat)

namespace Operation

/-- The answer of a stream, and the stream behind the operation. Nothing answers a splice. -/
def onStream (s : TokenStream) : Operation → Option Token × TokenStream
  | splice tokens => (none, s.splice tokens)
  | next => s.next
  | peek ahead => (s.peek? ahead, s)

/-- The same on a list of unread tokens. -/
def onList (unread : List Token) : Operation → Option Token × List Token
  | splice tokens => (none, tokens ++ unread)
  | next => (unread.head?, unread.tail)
  | peek ahead => (unread[ahead]?, unread)

/-- Operations one after the other, with all their answers. -/
def inTurn {σ : Type} (perform : σ → Operation → Option Token × σ) :
    σ → List Operation → List (Option Token) × σ
  | s, [] => ([], s)
  | s, operation :: rest =>
    let (answer, s') := perform s operation
    let (answers, last) := inTurn perform s' rest
    (answer :: answers, last)

/-- The tokens that operations read, as their answers tell. A token that is only looked at is not
read. -/
def readBy : List Operation → List (Option Token) → List Token
  | next :: rest, answer :: answers => answer.toList ++ readBy rest answers
  | _ :: rest, _ :: answers => readBy rest answers
  | _, _ => []

/-- The tokens that operations splice in. -/
def splicedBy (operations : List Operation) : List Token :=
  operations.flatMap fun
    | splice tokens => tokens
    | _ => []

end Operation

open Operation

/-- The unread parts of the segments, one behind the other. -/
def flat (s : TokenStream) : List Token := s.segments.flatMap Segment.unread

theorem flat_eq_unread (s : TokenStream) : s.flat = s.unread := by
  simp [flat, unread_eq, layered, layeredIn, List.map_flatMap, Function.comp_def]

theorem flat_of_tokens (tokens : List Token) : (ofTokens tokens).flat = tokens := by
  rw [flat_eq_unread, unread_eq, layered_of_tokens, map_fst_at_depth]

/-! One operation -/

theorem next_flat (s : TokenStream) : s.next.1 = s.flat.head? ∧ s.next.2.flat = s.flat.tail := by
  simp only [flat_eq_unread, unread_eq]
  cases h : s.layered with
  | nil => simp [next_of_nil h, layered, layeredIn]
  | cons first rest =>
    obtain ⟨ht, hr, -, -⟩ := next_of_cons h
    simp [ht, hr]

theorem splice_flat (s : TokenStream) (tokens : List Token) :
    (s.splice tokens).flat = tokens ++ s.flat := by
  simp only [flat_eq_unread, unread_eq, layered_splice, List.map_append, map_fst_at_depth]

/-- Each operation does to the stream what it does to the list. -/
theorem on_stream_flat (s : TokenStream) (operation : Operation) :
    (onStream s operation).1 = (onList s.flat operation).1 ∧
      (onStream s operation).2.flat = (onList s.flat operation).2 := by
  cases operation with
  | splice tokens => exact ⟨rfl, splice_flat s tokens⟩
  | next => exact next_flat s
  | peek ahead => exact ⟨(peek_eq s ahead).trans (by rw [flat_eq_unread]; rfl), rfl⟩

/-! A run of operations -/

theorem in_turn_flat (operations : List Operation) (s : TokenStream) :
    (inTurn onStream s operations).1 = (inTurn onList s.flat operations).1 ∧
      (inTurn onStream s operations).2.flat = (inTurn onList s.flat operations).2 := by
  induction operations generalizing s with
  | nil => exact ⟨rfl, rfl⟩
  | cons operation rest ih =>
    obtain ⟨hanswer, hflat⟩ := on_stream_flat s operation
    obtain ⟨hanswers, hlast⟩ := ih (onStream s operation).2
    rw [hflat] at hanswers hlast
    simp only [inTurn, hanswer, hanswers, hlast, and_self]

/-- What was in the list, or came in, was read or is left. -/
theorem read_append_left_perm (operations : List Operation) (unread : List Token) :
    (readBy operations (inTurn onList unread operations).1 ++
      (inTurn onList unread operations).2).Perm (unread ++ splicedBy operations) := by
  induction operations generalizing unread with
  | nil => simp [inTurn, readBy, splicedBy]
  | cons operation rest ih =>
    cases operation with
    | splice tokens =>
      have h := ih (tokens ++ unread)
      apply h.trans
      change (tokens ++ unread ++ splicedBy rest).Perm (unread ++ (tokens ++ splicedBy rest))
      rw [← List.append_assoc]
      exact List.perm_append_comm.append_right _
    | next =>
      cases unread with
      | nil => exact ih []
      | cons t unread => exact (ih unread).cons t
    | peek ahead => exact ih unread

/-! The segments -/

/-- A token is read at the position of the first segment that is not read up, and this position
moves one on. -/
inductive ReadAt (t : Token) : List Segment → List Segment → Prop
  | intro {finished : List Segment} {segment : Segment} {behind : List Segment}
      (hfinished : ∀ other ∈ finished, other.position = other.tokens.length)
      (hread : segment.tokens[segment.position]? = some t)
      (hmoves : segment.afterOne.position = segment.position + 1) :
      ReadAt t (finished ++ segment :: behind) (dropExhausted (segment.afterOne :: behind))

theorem ReadAt.behind {t : Token} {first : Segment} {others rest : List Segment}
    (h : ReadAt t others rest) (hfirst : first.position = first.tokens.length) :
    ReadAt t (first :: others) rest := by
  cases h with
  | intro hfinished hread hmoves =>
    exact .intro (List.forall_mem_cons.mpr ⟨hfirst, hfinished⟩) hread hmoves

theorem next_in_read_at {segments rest : List Segment} {t : Token} {depth : Nat}
    (h : nextIn segments = some (t, rest, depth)) : ReadAt t segments rest := by
  induction segments with
  | nil => simp [nextIn] at h
  | cons first others ih =>
    unfold nextIn at h
    split at h
    · rename_i hnone
      exact (ih h).behind (first.position_of_exhausted (List.head?_eq_none_iff.mp hnone))
    · rename_i t' hhead
      simp only [Option.some.injEq, Prod.mk.injEq] at h
      obtain ⟨rfl, rfl, -⟩ := h
      have hunread : first.unread ≠ [] := fun hnil => by simp [hnil] at hhead
      rw [first.unread_eq_drop, List.head?_drop] at hhead
      change ReadAt _ ([] ++ first :: others) _
      exact .intro (List.forall_mem_nil _) hhead (first.position_after_one hunread)

theorem next_read_at {s : TokenStream} {t : Token} (h : s.next.1 = some t) :
    ReadAt t s.segments s.next.2.segments := by
  unfold TokenStream.next at h ⊢
  cases hn : nextIn s.segments with
  | none => simp [hn] at h
  | some found =>
    obtain ⟨t', rest, depth⟩ := found
    simp only [hn, Option.some.injEq] at h
    exact next_in_read_at (h ▸ hn)

/-- Every segment holds a list of tokens from some source. -/
def From (source : List Token → Prop) (s : TokenStream) : Prop :=
  ∀ segment ∈ s.segments, source segment.tokens

variable {source : List Token → Prop} {s : TokenStream}

theorem from_of_tokens {tokens : List Token} (h : source tokens) :
    (ofTokens tokens).From source := by
  intro segment hs
  cases tokens with
  | nil => simp [ofTokens] at hs
  | cons t ts =>
    simp only [ofTokens, List.isEmpty_cons, Bool.false_eq_true, if_false,
      List.mem_singleton] at hs
    subst hs
    exact h

theorem mem_drop_exhausted {segments : List Segment} {segment : Segment}
    (h : segment ∈ dropExhausted segments) : segment ∈ segments :=
  (List.dropWhile_sublist _).mem h

/-- Reading keeps what the segments hold and drops only whole segments. -/
theorem next_in_tokens {segments rest : List Segment} {t : Token} {depth : Nat}
    (h : nextIn segments = some (t, rest, depth)) :
    ∀ segment ∈ rest, ∃ old ∈ segments, segment.tokens = old.tokens := by
  induction segments with
  | nil => simp [nextIn] at h
  | cons first others ih =>
    unfold nextIn at h
    split at h
    · intro segment hs
      obtain ⟨old, hold, he⟩ := ih h segment hs
      exact ⟨old, List.mem_cons_of_mem first hold, he⟩
    · simp only [Option.some.injEq, Prod.mk.injEq] at h
      obtain ⟨-, rfl, -⟩ := h
      intro segment hs
      rcases List.mem_cons.mp (mem_drop_exhausted hs) with rfl | hs
      · exact ⟨first, List.mem_cons_self, rfl⟩
      · exact ⟨segment, List.mem_cons_of_mem first hs, rfl⟩

theorem From.next (h : s.From source) : s.next.2.From source := by
  intro segment hs
  unfold TokenStream.next at hs
  cases hn : nextIn s.segments with
  | none => simp [hn] at hs
  | some found =>
    obtain ⟨t, rest, depth⟩ := found
    simp only [hn] at hs
    obtain ⟨old, hold, he⟩ := next_in_tokens hn segment hs
    exact he ▸ h old hold

theorem From.splice {tokens : List Token} (h : s.From source) (ht : source tokens) :
    (s.splice tokens).From source := by
  intro segment hs
  unfold TokenStream.splice at hs
  dsimp only at hs
  split at hs
  · exact h segment (mem_drop_exhausted hs)
  · rcases List.mem_cons.mp hs with rfl | hs
    · exact ht
    · exact h segment (mem_drop_exhausted hs)

theorem From.in_turn {operations : List Operation} (h : s.From source)
    (hsplices : ∀ tokens, .splice tokens ∈ operations → source tokens) :
    (inTurn onStream s operations).2.From source := by
  induction operations generalizing s with
  | nil => exact h
  | cons operation rest ih =>
    apply ih _ fun tokens ht => hsplices tokens (List.mem_cons_of_mem operation ht)
    cases operation with
    | splice tokens => exact h.splice (hsplices tokens List.mem_cons_self)
    | next => exact h.next
    | peek ahead => exact h

/-- Whatever is spliced in, read and looked at, the stream answers as a list does, and so it does
afterwards. It is finished when the list is empty. What came in was read once or is still unread.
The segments are the lists that came in, each read up to a position of its own, at which reading
goes on. -/
theorem stream_reads_as_list (tokens : List Token) (operations : List Operation) :
    let stream := inTurn onStream (ofTokens tokens) operations
    let list := inTurn onList tokens operations
    stream.1 = list.1 ∧ stream.2.flat = list.2 ∧
      (∀ operation, (onStream stream.2 operation).1 = (onList list.2 operation).1 ∧
        (onStream stream.2 operation).2.flat = (onList list.2 operation).2) ∧
      (stream.2.isFinished = true ↔ list.2 = []) ∧
      (readBy operations stream.1 ++ stream.2.flat).Perm (tokens ++ splicedBy operations) ∧
      (∀ segment ∈ stream.2.segments,
        (segment.tokens = tokens ∨ .splice segment.tokens ∈ operations) ∧
          segment.position ≤ segment.tokens.length ∧
          segment.unread = segment.tokens.drop segment.position) ∧
      ∀ t, stream.2.next.1 = some t →
        ReadAt t stream.2.segments stream.2.next.2.segments := by
  intro stream list
  obtain ⟨hanswers, hflat⟩ := in_turn_flat operations (ofTokens tokens)
  rw [flat_of_tokens] at hanswers hflat
  have hsources : stream.2.From fun source => source = tokens ∨ .splice source ∈ operations :=
    (from_of_tokens (.inl rfl)).in_turn fun _ h => .inr h
  refine ⟨hanswers, hflat, fun operation => ?_, ?_, ?_, fun segment hs => ?_, fun t => ?_⟩
  · rw [← hflat]
    exact on_stream_flat stream.2 operation
  · rw [is_finished_iff, ← hflat, flat_eq_unread, unread_eq, List.map_eq_nil_iff]
  · rw [hanswers, hflat]
    exact read_append_left_perm operations tokens
  · exact ⟨hsources segment hs, segment.position_le, segment.unread_eq_drop⟩
  · exact next_read_at

end TokenStream

end ResourceCompiler

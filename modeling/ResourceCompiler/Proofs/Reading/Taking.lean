import ResourceCompiler.Proofs.Reading.Local

/-!
What the result of a parser tells: something about itself, or about the tokens that were read for
it. Either is said of the parts of a parser, and holds of what they are put together to.
-/

namespace ResourceCompiler

namespace Parser

variable {α β : Type}

/-! Results -/

/-- Whatever the parser gives has the property. -/
def Yields (p : Parser α) (good : α → Prop) : Prop :=
  ∀ c c' a, p c = (.ok a, c') → good a

variable {good : α → Prop} {result : β → Prop} {p : Parser α} {f : α → Parser β}

theorem Yields.mono {better : α → Prop} (hp : Yields p good) (hle : ∀ a, good a → better a) :
    Yields p better :=
  fun _ _ _ h => hle _ (hp _ _ _ h)

theorem Yields.bind (hp : Yields p good) (hf : ∀ a, good a → Yields (f a) result) :
    Yields (p >>= f) result := by
  intro c c' b h
  obtain ⟨a, c₁, h₁, h₂⟩ := Attempt.bind_eq_ok.mp h
  exact hf a (hp _ _ _ h₁) _ _ _ h₂

/-- What a first part gives may not matter. -/
theorem yields_after (p : Parser α) (hf : ∀ a, Yields (f a) result) : Yields (p >>= f) result := by
  intro c c' b h
  obtain ⟨a, c₁, -, h₂⟩ := Attempt.bind_eq_ok.mp h
  exact hf a _ _ _ h₂

theorem yields_pure {a : α} (h : good a) : Yields (pure a) good := by
  intro c c' b hb
  cases hb
  exact h

theorem yields_fail (e : CompileError) : Yields (Attempt.fail e) good := by
  intro c c' a h
  cases h

theorem yields_lift (r : Except CompileError α) : Yields (Attempt.lift r) (r = .ok ·) := by
  cases r with
  | ok a => exact yields_pure rfl
  | error e => exact yields_fail e

theorem yields_ite {c : Prop} [Decidable c] {p q : Parser α} (hp : c → Yields p good)
    (hq : ¬ c → Yields q good) : Yields (if c then p else q) good := by
  split
  · exact hp ‹_›
  · exact hq ‹_›

/-- The state that a round ends with. -/
def Round.state : Round β → β
  | .again state | .done state => state

/-- What the first round comes to and every further one keeps. -/
theorem yields_rounds {round : β → Parser (Round β)} {good : β → Prop} {state : β}
    (hfirst : Yields (round state) (good ·.state))
    (hround : ∀ state, good state → Yields (round state) (good ·.state))
    (allowance : List Token) : Yields (rounds round allowance state) good := by
  induction allowance generalizing state with
  | nil =>
    refine hfirst.bind fun r hr => ?_
    cases r with
    | again _ => exact yields_fail _
    | done state' => exact yields_pure hr
  | cons _ allowance ih =>
    refine hfirst.bind fun r hr => ?_
    cases r with
    | again state' => exact ih (hround state' hr)
    | done state' => exact yields_pure hr

theorem yields_repeating {round : β → Parser (Round β)} {good : β → Prop} {state : β}
    (hfirst : Yields (round state) (good ·.state))
    (hround : ∀ state, good state → Yields (round state) (good ·.state)) :
    Yields (repeating round state) good :=
  fun _ _ _ h => yields_rounds hfirst hround _ _ _ _ h

variable {item : β → Parser β} {state : β}

theorem yields_closed {closing : TokenKind} {round : β → Parser (Round β)} (h : result state)
    (hround : ∀ state, result state → Yields (round state) (result ·.state)) :
    Yields (do
      let state ← repeating round state
      let _ ← ensureKind closing
      return state) result := by
  refine (yields_repeating (hround state h) hround).bind fun state' hs => ?_
  exact yields_after _ fun _ => yields_pure hs

/-- An item that keeps a property may be repeated. -/
theorem yields_until_closed {closing : TokenKind} (h : result state)
    (hitem : ∀ state, result state → Yields (item state) result) :
    Yields (untilClosed closing item state) result := by
  refine yields_closed h fun state hs => yields_after _ fun closed => ?_
  refine yields_ite (fun _ => yields_pure hs) fun _ => ?_
  exact (hitem state hs).bind fun _ hs' => yields_pure hs'

theorem yields_list_until_closed {closing : TokenKind} (h : result state)
    (hitem : ∀ state, result state → Yields (item state) result) :
    Yields (listUntilClosed closing item state) result := by
  refine yields_closed h fun state hs => yields_after _ fun closed => ?_
  refine yields_ite (fun _ => yields_pure hs) fun _ => ?_
  refine (hitem state hs).bind fun _ hs' => yields_after _ fun comma => ?_
  cases comma <;> exact yields_pure hs'

/-! Tokens -/

/-- A parser that succeeds takes some tokens off the front, and those and its result agree. -/
def Takes (p : Parser α) (agree : List Token → α → Prop) : Prop :=
  ∀ c c' a, p c = (.ok a, c') → ∃ taken, c.unread = taken ++ c'.unread ∧ agree taken a

variable {agree agree' : List Token → α → Prop} {told : List Token → β → Prop}

theorem Takes.mono (h : Takes p agree) (hle : ∀ taken a, agree taken a → agree' taken a) :
    Takes p agree' := by
  intro c c' a hp
  obtain ⟨taken, ht, ha⟩ := h _ _ _ hp
  exact ⟨taken, ht, hle _ _ ha⟩

theorem Takes.bind (hp : Takes p agree)
    (hf : ∀ taken a, agree taken a → Takes (f a) fun more b => told (taken ++ more) b) :
    Takes (p >>= f) told := by
  intro c c' b h
  obtain ⟨a, c₁, h₁, h₂⟩ := Attempt.bind_eq_ok.mp h
  obtain ⟨taken, ht, ha⟩ := hp _ _ _ h₁
  obtain ⟨more, hm, hb⟩ := hf taken a ha _ _ _ h₂
  exact ⟨taken ++ more, by rw [ht, hm, List.append_assoc], hb⟩

/-- Of a parser about which nothing is said it is known that it takes tokens off the front. -/
theorem Local.takes {n ahead : Nat} (h : Local n ahead p) : Takes p fun _ _ => True := by
  intro c c' a hp
  obtain ⟨taken, ht, -⟩ := h.reads hp
  exact ⟨taken, ht, trivial⟩

theorem takes_pure {a : α} (h : agree [] a) : Takes (pure a) agree := by
  intro c c' b hb
  cases hb
  exact ⟨[], rfl, h⟩

theorem takes_fail (e : CompileError) : Takes (Attempt.fail e) agree := by
  intro c c' a h
  cases h

theorem takes_lift (r : Except CompileError α) :
    Takes (Attempt.lift r) fun taken a => taken = [] ∧ r = .ok a := by
  cases r with
  | error e => exact takes_fail e
  | ok a => exact takes_pure ⟨rfl, rfl⟩

theorem takes_demand (value : Option α) (location : Location) (fault : MeaningFault) :
    Takes (demand value location fault) fun taken a => taken = [] ∧ value = some a := by
  cases value with
  | none => exact takes_fail _
  | some a => exact takes_pure ⟨rfl, rfl⟩

theorem takes_look {g : Cursor → α} (hf : ∀ a, Takes (f a) told) : Takes (look g >>= f) told :=
  fun _ _ _ h => hf _ _ _ _ h

theorem takes_ite {c : Prop} [Decidable c] {p q : Parser α} (hp : c → Takes p agree)
    (hq : ¬ c → Takes q agree) : Takes (if c then p else q) agree := by
  split
  · exact hp ‹_›
  · exact hq ‹_›

theorem takes_ensure (condition : Condition) :
    Takes (ensure condition) fun taken t => taken = [t] ∧ condition.holds t = true := by
  rintro ⟨unread, last⟩ c' t h
  cases unread with
  | nil => cases h
  | cons first rest =>
    unfold ensure at h
    dsimp only at h
    split at h
    · rename_i hholds
      cases h
      exact ⟨[_], rfl, rfl, hholds⟩
    · cases h

theorem takes_ensure_kind (kind : TokenKind) :
    Takes (ensureKind kind) fun taken t => taken = [t] ∧ t.kind = kind :=
  (takes_ensure _).mono fun _ _ h => ⟨h.1, Condition.holds_of_kind.mp h.2⟩

theorem takes_accept_kind (kind : TokenKind) : Takes (acceptKind kind) fun taken found =>
    taken = found.toList ∧ ∀ t ∈ found, t.kind = kind := by
  rintro ⟨unread, last⟩ c' found h
  cases unread with
  | nil =>
    cases h
    exact ⟨[], rfl, rfl, nofun⟩
  | cons first rest =>
    unfold acceptKind accept at h
    dsimp only at h
    split at h
    · rename_i hholds
      cases h
      refine ⟨[_], rfl, rfl, ?_⟩
      rintro t ⟨⟩
      exact Condition.holds_of_kind.mp hholds
    · cases h
      exact ⟨[], rfl, rfl, nofun⟩

theorem takes_consume (condition : Condition) : Takes (consume condition) fun taken tokens =>
    taken = tokens ∧ ∀ t ∈ tokens, condition.holds t = true := by
  intro c c' tokens h
  cases h
  exact ⟨_, List.takeWhile_append_dropWhile.symm, rfl, List.all_eq_true.mp List.all_takeWhile⟩

/-- What was read so far agrees with the state between two rounds. -/
theorem takes_repeating {round : β → Parser (Round β)} {told : List Token → β → Prop}
    (hround : ∀ taken state, told taken state →
      Takes (round state) fun more r => told (taken ++ more) r.state)
    {taken : List Token} {state : β} (h : told taken state) :
    Takes (repeating round state) fun more state' => told (taken ++ more) state' := by
  have hrounds (allowance : List Token) {taken : List Token} {state : β} (h : told taken state) :
      Takes (rounds round allowance state) fun more state' => told (taken ++ more) state' := by
    induction allowance generalizing taken state with
    | nil =>
      refine (hround taken state h).bind fun more r hr => ?_
      cases r with
      | again _ => exact takes_fail _
      | done state' => exact takes_pure (by rwa [List.append_nil])
    | cons _ allowance ih =>
      refine (hround taken state h).bind fun more r hr => ?_
      cases r with
      | again state' => exact (ih hr).mono fun _ _ hm => by rwa [← List.append_assoc]
      | done state' => exact takes_pure (by rwa [List.append_nil])
  exact fun c _ _ => hrounds c.unread h _ _ _

/-- What is read up to the closing mark. -/
def Closed (closing : TokenKind) (told : List Token → β → Prop) (taken : List Token) (state : β) :
    Prop :=
  ∃ inner mark, taken = inner ++ [mark] ∧ mark.kind = closing ∧ told inner state

theorem takes_closed {closing : TokenKind} {told : List Token → β → Prop}
    {round : β → Parser (Round β)} (h : told [] state)
    (hround : ∀ taken state, told taken state →
      Takes (round state) fun more r => told (taken ++ more) r.state) :
    Takes (do
      let state ← repeating round state
      let _ ← ensureKind closing
      return state) (Closed closing told) := by
  refine (takes_repeating hround h).bind fun inner state' hs => ?_
  refine (takes_ensure_kind closing).bind fun _ mark hm => ?_
  obtain ⟨rfl, hkind⟩ := hm
  exact takes_pure ⟨inner, mark, by rw [List.append_nil], hkind, hs⟩

theorem takes_until_closed {closing : TokenKind} {told : List Token → β → Prop} (h : told [] state)
    (hitem : ∀ taken state, told taken state →
      Takes (item state) fun more state' => told (taken ++ more) state') :
    Takes (untilClosed closing item state) (Closed closing told) := by
  refine takes_closed h fun taken state hs => takes_look fun closed => ?_
  refine takes_ite (fun _ => takes_pure (by rwa [List.append_nil])) fun _ => ?_
  refine (hitem taken state hs).bind fun more state' hs' => takes_pure ?_
  rwa [List.append_nil]

/-- A comma may follow each item. -/
theorem takes_list_until_closed {closing : TokenKind} {told : List Token → β → Prop}
    (h : told [] state)
    (hitem : ∀ taken state, told taken state → Takes (item state) fun more state' =>
      ∀ comma : Option Token, (∀ t ∈ comma, t.kind = .comma) →
        told (taken ++ (more ++ comma.toList)) state') :
    Takes (listUntilClosed closing item state) (Closed closing told) := by
  refine takes_closed h fun taken state hs => takes_look fun closed => ?_
  refine takes_ite (fun _ => takes_pure (by rwa [List.append_nil])) fun _ => ?_
  refine (hitem taken state hs).bind fun more state' hs' => ?_
  refine (takes_accept_kind .comma).bind fun _ comma hc => ?_
  obtain ⟨rfl, hcomma⟩ := hc
  cases comma <;> exact takes_pure (by simpa [Round.state] using hs' _ hcomma)

end Parser

end ResourceCompiler

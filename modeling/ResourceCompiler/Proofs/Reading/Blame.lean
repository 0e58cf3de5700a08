import ResourceCompiler.Proofs.Reading.Taking

/-!
Where the errors of a parser stand. A parser blames a token that it has read, or the one that is
next, or a place that it was told of. At the end of the input it blames the last token in front.
No parser breaks down: as every round but the last reads a token, a repetition comes to its last
round before the allowance is spent.
-/

namespace ResourceCompiler

/-- The place of a fault in the grammar or in the meaning of the source. -/
def CompileError.place? : CompileError → Option Location
  | .grammar place _ | .meaning place _ => some place
  | _ => none

/-- An error that is reported to the user. If it has a place in the source, that is a good one. -/
structure CompileError.Points (e : CompileError) (good : Location → Prop) : Prop where
  reported : ∀ cause, e ≠ .breakdown cause
  place : ∀ place, e.place? = some place → good place

theorem CompileError.points_of_place {e : CompileError} {good : Location → Prop} {place : Location}
    (hat : e.place? = some place) (h : good place) : e.Points good where
  reported := by
    rintro cause rfl
    cases hat
  place place' hplace := by
    rw [hat] at hplace
    exact Option.some.inj hplace ▸ h

theorem CompileError.Points.mono {e : CompileError} {good better : Location → Prop}
    (h : e.Points good) (hle : ∀ place, good place → better place) : e.Points better :=
  ⟨h.reported, fun place hplace => hle place (h.place place hplace)⟩

/-- Something stands at a known place, or at the token that is next. -/
def Placed (known : Location → Prop) (unread : List Token) (place : Location) : Prop :=
  known place ∨ ∃ t, unread.head? = some t ∧ t.location = place

namespace Parser

variable {known : Location → Prop} {given : Prop} {α β : Type}

/-- How a parser ends if all tokens that it has read stand at known places: the last of them does,
and the result is as told, or the error can be placed. -/
def Traced (known : Location → Prop) (told : α → Prop) : Except CompileError α × Cursor → Prop
  | (.ok a, c) => known c.last ∧ told a
  | (.error e, c) => e.Points (Placed known c.unread)

/-- Some tokens are read from a cursor on. If these stand at known places, and so does the last one
in front of them, it can be told how the parser ends. `given` is what has to be known before. -/
def TracedFrom (known : Location → Prop) (given : Prop) (told : α → Prop) (c : Cursor)
    (ended : Except CompileError α × Cursor) : Prop :=
  ∃ taken, c.unread = taken ++ ended.2.unread ∧
    (given → known c.last → (∀ t ∈ taken, known t.location) → Traced known told ended)

/-- The errors of a parser stand at tokens that were read, at the next one or at places that are
known before. What it gives has the property that is told. -/
def Blames (known : Location → Prop) (given : Prop) (p : Parser α) (told : α → Prop) : Prop :=
  ∀ c, TracedFrom known given told c (p c)

variable {p q : Parser α} {f : α → Parser β} {told : α → Prop} {result : β → Prop}

theorem TracedFrom.mono {told' : α → Prop} {c : Cursor} {ended : Except CompileError α × Cursor}
    (h : TracedFrom known given told c ended)
    (hle : ∀ a taken, c.unread = taken ++ ended.2.unread → ended.1 = .ok a →
      (∀ t ∈ taken, known t.location) → told a → told' a) :
    TracedFrom known given told' c ended := by
  obtain ⟨taken, hu, hends⟩ := h
  refine ⟨taken, hu, fun hg hlast htaken => ?_⟩
  have hended := hends hg hlast htaken
  rcases ended with ⟨e | a, c'⟩
  · exact hended
  · exact ⟨hended.1, hle a taken hu rfl htaken hended.2⟩

/-- More may be known before than is needed. -/
theorem TracedFrom.under {given' : Prop} {c : Cursor} {ended : Except CompileError α × Cursor}
    (h : TracedFrom known given told c ended) (hle : given' → given) :
    TracedFrom known given' told c ended := by
  obtain ⟨taken, hu, hends⟩ := h
  exact ⟨taken, hu, fun hg => hends (hle hg)⟩

/-- The second part goes on where the first one ends. -/
theorem TracedFrom.bind {c : Cursor} (hp : TracedFrom known given told c (p c))
    (hf : ∀ a c₁, p c = (.ok a, c₁) → TracedFrom known (given ∧ told a) result c₁ (f a c₁)) :
    TracedFrom known given result c ((p >>= f) c) := by
  rw [Attempt.bind_apply]
  rcases hc : p c with ⟨e | a, c₁⟩
  · rw [hc] at hp
    exact hp
  · rw [hc] at hp
    obtain ⟨taken, hu, hends⟩ := hp
    obtain ⟨more, hu₁, hends₁⟩ := hf a c₁ hc
    refine ⟨taken ++ more, by rw [List.append_assoc, ← hu₁]; exact hu, fun hg hlast htaken => ?_⟩
    obtain ⟨hfirst, hmore⟩ := List.forall_mem_append.mp htaken
    obtain ⟨hlast₁, ha⟩ := hends hg hlast hfirst
    exact hends₁ ⟨hg, ha⟩ hlast₁ hmore

theorem Blames.bind (hp : Blames known given p told)
    (hf : ∀ a, Blames known (given ∧ told a) (f a) result) :
    Blames known given (p >>= f) result :=
  fun c => (hp c).bind fun a c₁ _ => hf a c₁

theorem Blames.mono {told' : α → Prop} (hp : Blames known given p told)
    (hle : ∀ a, told a → told' a) : Blames known given p told' :=
  fun c => (hp c).mono fun a _ _ _ _ => hle a

theorem Blames.under {given' : Prop} (hp : Blames known given p told) (h : given' → given) :
    Blames known given' p told :=
  fun c => (hp c).under h

theorem Blames.plain (hp : Blames known given p told) : Blames known given p fun _ => True :=
  hp.mono fun _ _ => trivial

/-- What a first part gives may not matter. -/
theorem Blames.before (hp : Blames known given p told)
    (hf : ∀ a, Blames known given (f a) result) : Blames known given (p >>= f) result :=
  hp.bind fun a => (hf a).under And.left

theorem blames_pure {a : α} (h : given → told a) : Blames known given (pure a) told :=
  fun _ => ⟨[], rfl, fun hg hlast _ => ⟨hlast, h hg⟩⟩

theorem blames_done {a : α} : Blames known given (pure a) fun _ => True :=
  blames_pure fun _ => trivial

theorem blames_fail {e : CompileError} {place : Location} (hat : e.place? = some place)
    (h : given → known place) : Blames known given (Attempt.fail e) told :=
  fun _ => ⟨[], rfl, fun hg _ _ => CompileError.points_of_place hat (.inl (h hg))⟩

theorem blames_fail_grammar {place : Location} {fault : GrammarFault} (h : given → known place) :
    Blames known given (failGrammar place fault) told :=
  blames_fail rfl h

theorem blames_fail_meaning {place : Location} {fault : MeaningFault} (h : given → known place) :
    Blames known given (failMeaning place fault) told :=
  blames_fail rfl h

/-- A check whose errors all stand at one place. -/
theorem blames_lift {r : Except CompileError α} {place : Location}
    (hat : ∀ e, r = .error e → e.place? = some place) (h : given → known place) :
    Blames known given (Attempt.lift r) (r = .ok ·) := by
  cases r with
  | ok a => exact blames_pure fun _ => rfl
  | error e => exact blames_fail (hat e rfl) h

theorem blames_demand {value : Option α} {place : Location} {fault : MeaningFault}
    (h : given → known place) : Blames known given (demand value place fault) (value = some ·) := by
  cases value with
  | none => exact blames_fail_meaning h
  | some a => exact blames_pure fun _ => rfl

theorem blames_ite {c : Prop} [Decidable c] (hp : c → Blames known given p told)
    (hq : ¬ c → Blames known given q told) : Blames known given (if c then p else q) told := by
  split
  · exact hp ‹_›
  · exact hq ‹_›

theorem blames_look {g : Cursor → α} (hf : ∀ a, Blames known given (f a) result) :
    Blames known given (look g >>= f) result :=
  fun c => hf (g c) c

/-! Reading -/

/-- At the end of the input the last token is to blame. -/
theorem traced_at_last {c : Cursor} {fault : GrammarFault} :
    TracedFrom known given told c (.error (.grammar c.last fault), c) :=
  ⟨[], rfl, fun _ hlast _ => CompileError.points_of_place rfl (.inl hlast)⟩

theorem traced_behind {a : α} {t : Token} {rest : List Token} {last : Location}
    (h : known t.location → told a) :
    TracedFrom known given told ⟨t :: rest, last⟩ (.ok a, ⟨rest, t.location⟩) :=
  ⟨[t], rfl, fun _ _ htaken => ⟨htaken t List.mem_cons_self, h (htaken t List.mem_cons_self)⟩⟩

theorem blames_next : Blames known given next (known ·.location) := by
  rintro ⟨_ | ⟨t, rest⟩, last⟩
  · exact traced_at_last
  · exact traced_behind id

theorem blames_ensure (condition : Condition) :
    Blames known given (ensure condition) (known ·.location) := by
  rintro ⟨_ | ⟨t, rest⟩, last⟩
  · exact traced_at_last
  · by_cases hholds : condition.holds t = true
    · simp only [ensure, hholds, if_true]
      exact traced_behind id
    · simp only [ensure, hholds]
      exact ⟨[], rfl, fun _ _ _ => CompileError.points_of_place rfl (.inr ⟨t, rfl, rfl⟩)⟩

theorem blames_ensure_kind (kind : TokenKind) :
    Blames known given (ensureKind kind) (known ·.location) :=
  blames_ensure _

theorem blames_accept (condition : Condition) :
    Blames known given (accept condition) fun found => ∀ t ∈ found, known t.location := by
  rw [accept_eq]
  refine blames_look fun found => blames_ite (fun _ => ?_) fun _ => blames_pure fun _ => nofun
  exact blames_next.bind fun t => blames_pure fun hg _ ht => Option.some.inj ht ▸ hg.2

theorem blames_accept_kind (kind : TokenKind) :
    Blames known given (acceptKind kind) fun found => ∀ t ∈ found, known t.location :=
  blames_accept _

theorem blames_consume (condition : Condition) :
    Blames known given (consume condition) fun tokens => ∀ t ∈ tokens, known t.location := by
  refine fun c => ⟨c.unread.takeWhile condition.holds, List.takeWhile_append_dropWhile.symm,
    fun _ hlast htaken => ⟨?_, htaken⟩⟩
  change known ((List.getLast? _).map _ |>.getD c.last)
  cases hg : (c.unread.takeWhile condition.holds).getLast? with
  | none => exact hlast
  | some t => exact htaken t (List.mem_of_getLast? hg)

/-- A token may be looked at before it is read. -/
theorem blames_first {f : Token → α → Parser β} (hp : Blames known given p told)
    (hreads : ∀ c a c', p c = (.ok a, c') → c'.unread.length < c.unread.length)
    (hf : ∀ t a, Blames known (given ∧ known t.location ∧ told a) (f t a) result) :
    Blames known given (peek 0 >>= fun t => p >>= f t) result := by
  rintro ⟨_ | ⟨t, rest⟩, last⟩
  · exact traced_at_last
  -- What is read then starts with this token, so its place is known afterwards.
  · change TracedFrom known given result ⟨t :: rest, last⟩ ((p >>= f t) ⟨t :: rest, last⟩)
    refine TracedFrom.bind ((hp _).mono fun a taken hu hok htaken ha => ⟨?_, ha⟩)
      fun a c₁ _ => hf t a c₁
    cases taken with
    | nil =>
      have hlen := hreads _ a _ (Prod.ext hok rfl)
      rw [hu] at hlen
      exact absurd hlen (Nat.lt_irrefl _)
    | cons t' taken =>
      obtain ⟨rfl, -⟩ := List.cons.inj hu
      exact htaken t List.mem_cons_self

/-- A mark ends what is read. -/
theorem blames_ended {kind : TokenKind} (hp : Blames known given p told) :
    Blames known given (do
      let a ← p
      let _ ← ensureKind kind
      return a) told :=
  hp.bind fun _ => (blames_ensure_kind kind).before fun _ => blames_pure And.right

/-! Repetition -/

/-- There is a round for every unread token, and one more. -/
theorem traced_rounds {round : β → Parser (Round β)}
    (hround : ∀ state, Blames known (given ∧ result state) (round state) (result ·.state))
    (hprogress : ∀ state, Progresses (round state)) {allowance : List Token} (state : β)
    {c : Cursor} (hlen : c.unread.length ≤ allowance.length) :
    TracedFrom known (given ∧ result state) result c (rounds round allowance state c) := by
  induction allowance generalizing state c with
  | nil =>
    refine (hround state c).bind fun r c₁ hr => ?_
    cases r with
    | again state' => exact absurd (hprogress state hr) (by simp_all)
    | done state' => exact blames_pure (fun hg => hg.2) c₁
  | cons _ allowance ih =>
    refine (hround state c).bind fun r c₁ hr => ?_
    cases r with
    | again state' =>
      have hless := hprogress state hr
      rw [List.length_cons] at hlen
      exact (ih state' (by omega)).under fun hg => ⟨hg.1.1, hg.2⟩
    | done state' => exact blames_pure (fun hg => hg.2) c₁

/-- What holds of the first state and is kept by every round holds in the end. -/
theorem blames_repeating {round : β → Parser (Round β)} {state : β} (h : given → result state)
    (hround : ∀ state, Blames known (given ∧ result state) (round state) (result ·.state))
    (hprogress : ∀ state, Progresses (round state)) :
    Blames known given (repeating round state) result :=
  fun _ => (traced_rounds hround hprogress state (Nat.le_refl _)).under fun hg => ⟨hg, h hg⟩

theorem blames_closed {closing : TokenKind} {more : β → Parser (Round β)} {state : β}
    (h : given → result state)
    (hmore : ∀ state, Blames known (given ∧ result state) (more state) (result ·.state))
    (hlocal : ∀ state, Local 1 1 (more state)) :
    Blames known given (do
      let state ← repeating (fun state => do
        if ← nextIs (.ofKind closing) then return .done state else more state) state
      let _ ← ensureKind closing
      return state) result := by
  refine blames_ended (blames_repeating h (fun state => blames_look fun _ => ?_)
    fun state => (local_closing_round closing hlocal state).2)
  exact blames_ite (fun _ => blames_pure And.right) fun _ => hmore state

variable {item : β → Parser β} {state : β}

theorem blames_until_closed {closing : TokenKind} (h : given → result state)
    (hitem : ∀ state, Blames known (given ∧ result state) (item state) result)
    (hlocal : ∀ state, Local 1 1 (item state)) :
    Blames known given (untilClosed closing item state) result :=
  blames_closed h (fun state => (hitem state).bind fun _ => blames_pure And.right)
    fun state => (hlocal state).bind fun _ => local_pure _

theorem blames_items {closing : TokenKind}
    (hitem : ∀ state, Blames known given (item state) fun _ => True)
    (hlocal : ∀ state, Local 1 1 (item state)) :
    Blames known given (untilClosed closing item state) fun _ => True :=
  blames_until_closed (fun _ => trivial) (fun state => (hitem state).under And.left) hlocal

theorem blames_list_until_closed {closing : TokenKind} (h : given → result state)
    (hitem : ∀ state, Blames known (given ∧ result state) (item state) result)
    (hlocal : ∀ state, Local 1 1 (item state)) :
    Blames known given (listUntilClosed closing item state) result := by
  refine blames_closed h (fun state => ?_) (local_list_round hlocal)
  refine (hitem state).bind fun _ => (blames_accept_kind .comma).bind fun comma => ?_
  cases comma <;> exact blames_pure fun ⟨⟨_, hstate⟩, _⟩ => hstate

end Parser

end ResourceCompiler

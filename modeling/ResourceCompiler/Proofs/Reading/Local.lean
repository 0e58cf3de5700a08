import ResourceCompiler.Reading.Parser

/-!
How much of the input settles what a parser does. A parser that succeeds reads some tokens and may
have looked at a few behind them. With other tokens behind those it does the same.
-/

namespace ResourceCompiler

namespace Parser

variable {α β : Type}

/-- The parser reads at least `need` tokens, and what it does is settled by those that it reads and
by `ahead` more. -/
structure Local (need ahead : Nat) (p : Parser α) : Prop where
  reads : ∀ {c c' : Cursor} {a : α}, p c = (.ok a, c') →
    ∃ taken, c.unread = taken ++ c'.unread ∧ need ≤ taken.length
  carries : ∀ {front behind rest : List Token} {last last' : Location} {a : α},
    p ⟨front ++ rest, last⟩ = (.ok a, ⟨behind ++ rest, last'⟩) → ahead ≤ behind.length →
    ∀ other, p ⟨front ++ other, last⟩ = (.ok a, ⟨behind ++ other, last'⟩)

theorem Local.weaken {need need' ahead ahead' : Nat} {p : Parser α} (h : Local need ahead p)
    (hle : need' ≤ need ∧ ahead ≤ ahead') : Local need' ahead' p where
  reads hp :=
    have ⟨taken, ht, hlen⟩ := h.reads hp
    ⟨taken, ht, Nat.le_trans hle.1 hlen⟩
  carries hp hlen := h.carries hp (Nat.le_trans hle.2 hlen)

/-- What the first parser looks at may be what the second one reads. -/
theorem Local.bind {m n a b : Nat} {p : Parser α} {f : α → Parser β} (hp : Local m a p)
    (hf : ∀ x, Local n b (f x)) : Local (m + n) (max (a - n) b) (p >>= f) where
  reads h := by
    obtain ⟨x, c₁, h₁, h₂⟩ := Attempt.bind_eq_ok.mp h
    obtain ⟨taken₁, ht₁, hlen₁⟩ := hp.reads h₁
    obtain ⟨taken₂, ht₂, hlen₂⟩ := (hf x).reads h₂
    refine ⟨taken₁ ++ taken₂, by rw [ht₁, ht₂, List.append_assoc], ?_⟩
    rw [List.length_append]
    omega
  carries := by
    intro front behind rest last last' y h hlen other
    obtain ⟨x, ⟨unread, last₁⟩, h₁, h₂⟩ := Attempt.bind_eq_ok.mp h
    obtain ⟨taken, ht, htaken⟩ := (hf x).reads h₂
    obtain rfl : unread = (taken ++ behind) ++ rest := by rw [List.append_assoc]; exact ht
    refine Attempt.bind_eq_ok.mpr ⟨x, _, hp.carries h₁ ?_ other, (hf x).carries h₂ ?_ other⟩
    · rw [List.length_append]
      omega
    · omega

theorem local_pure (a : α) : Local 0 0 (pure a : Parser α) where
  reads h := by
    cases h
    exact ⟨[], rfl, Nat.le_refl _⟩
  carries := by
    intro front behind rest last last' y h _ other
    simp only [Attempt.pure_apply, Prod.mk.injEq, Except.ok.injEq, Cursor.mk.injEq,
      List.append_cancel_right_eq] at h ⊢
    exact h

theorem local_fail (need ahead : Nat) (e : CompileError) :
    Local need ahead (Attempt.fail e : Parser α) where
  reads h := by cases h
  carries h := by cases h

theorem local_lift (r : Except CompileError α) : Local 0 0 (Attempt.lift r) := by
  cases r with
  | error e => exact local_fail 0 0 e
  | ok a => exact local_pure a

theorem local_demand (value : Option α) (location : Location) (fault : MeaningFault) :
    Local 0 0 (demand value location fault) := by
  cases value with
  | none => exact local_fail 0 0 _
  | some a => exact local_pure a

theorem Local.ite {need ahead : Nat} {c : Prop} [Decidable c] {p q : Parser α}
    (hp : Local need ahead p) (hq : Local need ahead q) :
    Local need ahead (if c then p else q) := by
  split
  · exact hp
  · exact hq

/-- A look at the unread tokens. -/
def look (g : Cursor → α) : Parser α := fun c => (.ok (g c), c)

theorem local_look {ahead : Nat} {g : Cursor → α}
    (hg : ∀ front rest other last, ahead ≤ front.length →
      g ⟨front ++ rest, last⟩ = g ⟨front ++ other, last⟩) : Local 0 ahead (look g) where
  reads h := by
    cases h
    exact ⟨[], rfl, Nat.le_refl _⟩
  carries := by
    intro front behind rest last last' y h hlen other
    simp only [look, Prod.mk.injEq, Except.ok.injEq, Cursor.mk.injEq,
      List.append_cancel_right_eq] at h ⊢
    obtain ⟨rfl, rfl, rfl⟩ := h
    exact ⟨hg front other rest last hlen, rfl, rfl⟩

theorem local_peek (ahead : Nat) : Local 0 (ahead + 1) (peek ahead) where
  reads := by
    rintro ⟨unread, last⟩ c' t h
    unfold peek at h
    split at h <;> cases h
    exact ⟨[], rfl, Nat.le_refl _⟩
  carries := by
    intro front behind rest last last' t h hlen other
    unfold peek at h ⊢
    dsimp only at h ⊢
    split at h
    · rename_i t' ht
      simp only [Prod.mk.injEq, Except.ok.injEq, Cursor.mk.injEq,
        List.append_cancel_right_eq] at h
      obtain ⟨rfl, rfl, rfl⟩ := h
      rw [List.getElem?_append_left (by omega)] at ht ⊢
      rw [ht]
    · cases h

theorem all_hold_append {conditions : List Condition} {front : List Token} (rest other : List Token)
    (h : conditions.length ≤ front.length) :
    Condition.allHold conditions (front ++ rest) =
      Condition.allHold conditions (front ++ other) := by
  induction conditions generalizing front with
  | nil => rfl
  | cons condition conditions ih =>
    cases front with
    | nil => simp at h
    | cons t front =>
      simp only [List.cons_append, Condition.allHold]
      rw [ih (by simpa using h)]

theorem local_expects (conditions : List Condition) :
    Local 0 conditions.length (expects conditions) :=
  local_look fun _ rest other _ h => all_hold_append rest other h

theorem local_next_is (condition : Condition) : Local 0 1 (nextIs condition) :=
  local_expects [condition]

/-- A parser that reads one token, of those that pass a test. -/
theorem local_of_reads_one {p : Parser Token} (test : Token → Bool)
    (h : ∀ c t c', p c = (.ok t, c') ↔
      c.unread = t :: c'.unread ∧ test t = true ∧ c'.last = t.location) : Local 1 0 p where
  reads hp := ⟨[_], ((h ..).mp hp).1, Nat.le_refl _⟩
  carries := by
    intro front behind rest last last' t hp _ other
    obtain ⟨hu, htest, hlast⟩ := (h ..).mp hp
    obtain rfl : front = t :: behind := List.append_cancel_right hu
    exact (h ..).mpr ⟨rfl, htest, hlast⟩

theorem local_next : Local 1 0 next := by
  refine local_of_reads_one (fun _ => true) fun ⟨unread, last⟩ t ⟨unread', last'⟩ => ?_
  cases unread with
  | nil => simp [next]
  | cons first rest =>
    simp only [next, Prod.mk.injEq, Except.ok.injEq, Cursor.mk.injEq, List.cons.injEq, true_and]
    constructor
    · rintro ⟨rfl, rfl, rfl⟩
      exact ⟨⟨rfl, rfl⟩, rfl⟩
    · rintro ⟨⟨rfl, rfl⟩, rfl⟩
      exact ⟨rfl, rfl, rfl⟩

theorem local_ensure (condition : Condition) : Local 1 0 (ensure condition) := by
  refine local_of_reads_one condition.holds fun ⟨unread, last⟩ t ⟨unread', last'⟩ => ?_
  cases unread with
  | nil => simp [ensure]
  | cons first rest =>
    simp only [ensure]
    split
    · rename_i hh
      simp only [Prod.mk.injEq, Except.ok.injEq, Cursor.mk.injEq, List.cons.injEq]
      constructor
      · rintro ⟨rfl, rfl, rfl⟩
        exact ⟨⟨rfl, rfl⟩, hh, rfl⟩
      · rintro ⟨⟨rfl, rfl⟩, _, rfl⟩
        exact ⟨rfl, rfl, rfl⟩
    · rename_i hh
      simp only [Prod.mk.injEq, reduceCtorEq, false_and, List.cons.injEq, false_iff, not_and]
      rintro ⟨rfl, -⟩ hh'
      exact absurd hh' hh

theorem accept_eq (condition : Condition) :
    accept condition = do
      if ← nextIs condition then return some (← next) else return none := by
  funext ⟨unread, last⟩
  cases unread with
  | nil => rfl
  | cons t rest =>
    have hlook : nextIs condition ⟨t :: rest, last⟩ =
        (.ok (condition.holds t), ⟨t :: rest, last⟩) := by
      simp [nextIs, expects, Cursor.expects, Condition.allHold]
    rw [Attempt.bind_ok hlook]
    cases hh : condition.holds t <;> simp only [accept, hh] <;> rfl

theorem local_accept (condition : Condition) : Local 0 1 (accept condition) := by
  rw [accept_eq]
  refine (local_next_is condition).bind (n := 0) (b := 0) fun found => ?_
  exact .ite ((local_next.bind fun _ => local_pure _).weaken (by decide)) (local_pure _)

theorem local_consume (condition : Condition) : Local 0 1 (consume condition) where
  reads := by
    rintro ⟨unread, last⟩ c' taken h
    cases h
    exact ⟨_, (List.takeWhile_append_dropWhile ..).symm, Nat.zero_le _⟩
  carries := by
    intro front behind rest last last' taken h hlen other
    simp only [consume, Cursor.past, Prod.mk.injEq, Except.ok.injEq, Cursor.mk.injEq] at h ⊢
    obtain ⟨htake, hdrop, hlast⟩ := h
    -- The condition stops inside the front, or nothing would be left of it.
    have hstop : (front.dropWhile condition.holds).isEmpty = false := by
      refine Bool.eq_false_iff.mpr fun he => ?_
      rw [List.dropWhile_append, if_pos he] at hdrop
      have hle := (List.dropWhile_suffix condition.holds (l := rest)).length_le
      rw [hdrop, List.length_append] at hle
      omega
    have htaken : (front.takeWhile condition.holds).length ≠ front.length := by
      have hsplit := congrArg List.length
        (List.takeWhile_append_dropWhile (p := condition.holds) (l := front))
      have hpos := List.length_pos_iff.mpr (List.isEmpty_eq_false_iff.mp hstop)
      rw [List.length_append] at hsplit
      omega
    simp only [List.takeWhile_append, htaken, List.dropWhile_append, hstop, if_false,
      Bool.false_eq_true, List.append_cancel_right_eq] at htake hdrop hlast ⊢
    exact ⟨htake, hdrop, hlast⟩

/-! Repetition -/

/-- Rounds that are not the last one read something. -/
def Progresses (round : Parser (Round β)) : Prop :=
  ∀ {c c' : Cursor} {state : β}, round c = (.ok (.again state), c') →
    c'.unread.length < c.unread.length

/-- A repetition that comes to its last round, without an allowance. -/
inductive Repeats (round : β → Parser (Round β)) : β → Cursor → β → Cursor → Prop
  | done {state result : β} {c c' : Cursor} : round state c = (.ok (.done result), c') →
      Repeats round state c result c'
  | again {state state' result : β} {c c₁ c' : Cursor} :
      round state c = (.ok (.again state'), c₁) → Repeats round state' c₁ result c' →
      Repeats round state c result c'

variable {round : β → Parser (Round β)}

theorem repeats_iff {state result : β} {c c' : Cursor} : Repeats round state c result c' ↔
    round state c = (.ok (.done result), c') ∨
      ∃ state' c₁, round state c = (.ok (.again state'), c₁) ∧
        Repeats round state' c₁ result c' := by
  constructor
  · intro h
    cases h with
    | done hr => exact .inl hr
    | again hr hrest => exact .inr ⟨_, _, hr, hrest⟩
  · rintro (hr | ⟨state', c₁, hr, hrest⟩)
    · exact .done hr
    · exact .again hr hrest

theorem repeats_of_rounds (hp : ∀ state, Progresses (round state)) {allowance : List Token}
    {state result : β} {c c' : Cursor} (hlen : c.unread.length ≤ allowance.length)
    (h : rounds round allowance state c = (.ok result, c')) : Repeats round state c result c' := by
  induction allowance generalizing state c with
  | nil =>
    obtain ⟨r, c₁, hr, hrest⟩ := Attempt.bind_eq_ok.mp h
    cases r with
    | done state' =>
      cases hrest
      exact .done hr
    | again state' =>
      have := hp state hr
      simp only [List.length_nil] at hlen
      omega
  | cons _ allowance ih =>
    obtain ⟨r, c₁, hr, hrest⟩ := Attempt.bind_eq_ok.mp h
    cases r with
    | done state' =>
      cases hrest
      exact .done hr
    | again state' =>
      have := hp state hr
      refine .again hr (ih ?_ hrest)
      simp only [List.length_cons] at hlen
      omega

theorem rounds_of_repeats (hp : ∀ state, Progresses (round state)) {allowance : List Token}
    {state result : β} {c c' : Cursor} (hlen : c.unread.length ≤ allowance.length)
    (h : Repeats round state c result c') :
    rounds round allowance state c = (.ok result, c') := by
  induction h generalizing allowance with
  | done hr => cases allowance <;> exact Attempt.bind_eq_ok.mpr ⟨_, _, hr, rfl⟩
  | again hr _ ih =>
    have := hp _ hr
    cases allowance with
    | nil =>
      simp only [List.length_nil] at hlen
      omega
    | cons _ allowance =>
      simp only [List.length_cons] at hlen
      exact Attempt.bind_eq_ok.mpr ⟨_, _, hr, ih (by omega)⟩

/-- The allowance of a repetition is enough. -/
theorem repeating_eq_ok (hp : ∀ state, Progresses (round state)) {state result : β}
    {c c' : Cursor} : repeating round state c = (.ok result, c') ↔
      Repeats round state c result c' :=
  ⟨repeats_of_rounds hp (Nat.le_refl _), rounds_of_repeats hp (Nat.le_refl _)⟩

theorem Repeats.reads {ahead : Nat} (hl : ∀ state, Local 0 ahead (round state)) {state result : β}
    {c c' : Cursor} (h : Repeats round state c result c') :
    ∃ taken, c.unread = taken ++ c'.unread := by
  induction h with
  | done hr =>
    obtain ⟨taken, ht, -⟩ := (hl _).reads hr
    exact ⟨taken, ht⟩
  | again hr _ ih =>
    obtain ⟨taken₁, ht₁, -⟩ := (hl _).reads hr
    obtain ⟨taken₂, ht₂⟩ := ih
    exact ⟨taken₁ ++ taken₂, by rw [ht₁, ht₂, List.append_assoc]⟩

theorem Repeats.carries {ahead : Nat} (hl : ∀ state, Local 0 ahead (round state))
    {state result : β} {c c' : Cursor} (h : Repeats round state c result c')
    {front behind rest : List Token} (hc : c.unread = front ++ rest)
    (hc' : c'.unread = behind ++ rest) (hlen : ahead ≤ behind.length) (other : List Token) :
    Repeats round state ⟨front ++ other, c.last⟩ result ⟨behind ++ other, c'.last⟩ := by
  induction h generalizing front with
  | @done _ _ c c' hr =>
    obtain ⟨unread, last⟩ := c
    obtain ⟨unread', last'⟩ := c'
    subst hc hc'
    exact .done ((hl _).carries hr hlen other)
  | @again _ _ _ c c₁ _ hr hrest ih =>
    obtain ⟨unread, last⟩ := c
    obtain ⟨unread₁, last₁⟩ := c₁
    obtain ⟨taken, ht⟩ := hrest.reads hl
    obtain rfl : unread₁ = (taken ++ behind) ++ rest := by
      rw [List.append_assoc, ← hc']
      exact ht
    subst hc
    refine .again ((hl _).carries hr ?_ other) (ih rfl hc')
    rw [List.length_append]
    omega

theorem local_repeating {ahead : Nat} (hl : ∀ state, Local 0 ahead (round state))
    (hp : ∀ state, Progresses (round state)) (state : β) :
    Local 0 ahead (repeating round state) where
  reads h :=
    have ⟨taken, ht⟩ := ((repeating_eq_ok hp).mp h).reads hl
    ⟨taken, ht, Nat.zero_le _⟩
  carries h hlen other :=
    (repeating_eq_ok hp).mpr (((repeating_eq_ok hp).mp h).carries hl rfl rfl hlen other)

theorem progresses_done (state : β) : Progresses (pure (.done state)) := by
  intro c c' state' h
  cases h

theorem Local.progresses {ahead : Nat} {round : Parser (Round β)} (h : Local 1 ahead round) :
    Progresses round := by
  intro c c' state hr
  obtain ⟨taken, ht, hlen⟩ := h.reads hr
  rw [ht, List.length_append]
  omega

theorem Local.progresses_bind {m a : Nat} {p : Parser α} {f : α → Parser (Round β)}
    (hp : Local m a p) (hf : ∀ x, Progresses (f x)) : Progresses (p >>= f) := by
  intro c c' state h
  obtain ⟨x, c₁, h₁, h₂⟩ := Attempt.bind_eq_ok.mp h
  obtain ⟨taken, ht, -⟩ := hp.reads h₁
  have := hf x h₂
  rw [ht, List.length_append]
  omega

theorem Progresses.ite {c : Prop} [Decidable c] {p q : Parser (Round β)} (hp : Progresses p)
    (hq : Progresses q) : Progresses (if c then p else q) := by
  split
  · exact hp
  · exact hq

variable {item : β → Parser β}

/-- The rounds of a repetition up to a mark: the mark is looked for, and if it is not next `more`
is read. -/
theorem local_closing_round (closing : TokenKind) {more : β → Parser (Round β)}
    (hmore : ∀ state, Local 1 1 (more state)) (state : β) :
    Local 0 1 (do if ← nextIs (.ofKind closing) then return .done state else more state) ∧
      Progresses (do if ← nextIs (.ofKind closing) then return .done state else more state) :=
  ⟨(local_next_is _).bind (n := 0) (b := 1) fun _ =>
      .ite ((local_pure _).weaken (by decide)) ((hmore state).weaken (by decide)),
    (local_next_is _).progresses_bind fun _ =>
      Progresses.ite (progresses_done _) (hmore state).progresses⟩

/-- A repetition up to a mark, and the mark. -/
theorem local_closed (closing : TokenKind) {more : β → Parser (Round β)}
    (hmore : ∀ state, Local 1 1 (more state)) (state : β) :
    Local 1 0 (do
      let state ← repeating (fun state => do
        if ← nextIs (.ofKind closing) then return .done state else more state) state
      let _ ← ensureKind closing
      return state) :=
  ((local_repeating (fun state => (local_closing_round closing hmore state).1)
    (fun state => (local_closing_round closing hmore state).2) state).bind fun result =>
      (local_ensure _).bind fun _ => local_pure result).weaken (by decide)

theorem local_until_closed (closing : TokenKind) (hitem : ∀ state, Local 1 1 (item state))
    (state : β) : Local 1 0 (untilClosed closing item state) :=
  local_closed closing (fun state => (hitem state).bind fun _ => local_pure _) state

/-- One item of a list, and the comma behind it if there is one. -/
def listRound (item : β → Parser β) (state : β) : Parser (Round β) := do
  let state ← item state
  match ← acceptKind .comma with
  | some _ => return .again state
  | none => return .done state

theorem local_list_round (hitem : ∀ state, Local 1 1 (item state)) (state : β) :
    Local 1 1 (listRound item state) := by
  refine (hitem state).bind fun _ => (local_accept _).bind (n := 0) (b := 0) fun comma => ?_
  cases comma <;> exact local_pure _

theorem local_list_until_closed (closing : TokenKind) (hitem : ∀ state, Local 1 1 (item state))
    (state : β) : Local 1 0 (listUntilClosed closing item state) :=
  local_closed closing (local_list_round hitem) state

end Parser

end ResourceCompiler

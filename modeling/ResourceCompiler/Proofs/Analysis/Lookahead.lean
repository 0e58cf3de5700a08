import ResourceCompiler.Proofs.Analysis.Blocks

/-!
Looking ahead and reading agree. A look at the next tokens goes through the segments at once.
Reading takes the tokens out one after the other, and segments that are read up are dropped
meanwhile. Both come to the same tokens, wherever a segment ends and wherever the reading stops.
-/

namespace ResourceCompiler

open TokenStream

namespace TokenStream

/-- Tokens are read one by one. Each is the one that the stream shows just before. -/
inductive ReadOff : TokenStream → List Token → TokenStream → Prop
  | nil (s : TokenStream) : ReadOff s [] s
  | cons {s s' : TokenStream} {t : Token} {others : List Token} (shown : s.peek? 0 = some t)
      (given : s.next.1 = some t) (onward : ReadOff s.next.2 others s') : ReadOff s (t :: others) s'

/-- The loop that reads on as long as the stream shows a token of which the condition holds, from
its start to its end. -/
inductive ReadWhile (condition : Condition) : TokenStream → List Token → TokenStream → Prop
  | stop {s : TokenStream} (fails : ∀ t, s.peek? 0 = some t → condition.holds t = false) :
      ReadWhile condition s [] s
  | again {s s' : TokenStream} {t : Token} {others : List Token} (shown : s.peek? 0 = some t)
      (holds : condition.holds t = true) (given : s.next.1 = some t)
      (onward : ReadWhile condition s.next.2 others s') : ReadWhile condition s (t :: others) s'

variable {s s' : TokenStream} {t : Token} {taken rest : List Token}

/-- What is shown is what is read next. -/
theorem next_of_unread (h : s.unread = t :: rest) : s.peek? 0 = some t ∧ s.next.1 = some t ∧
    s.next.2.unread = rest ∧ s.next.2.last = t.location := by
  obtain ⟨⟨_, depth⟩, behind, hlayered, rfl, hrest⟩ := List.map_eq_cons_iff.mp (unread_eq s ▸ h)
  obtain ⟨hgiven, hbehind, hlast, -⟩ := next_of_cons hlayered
  refine ⟨?_, hgiven, ?_, hlast⟩
  · rw [peek_zero, h, List.head?_cons]
  · rw [unread_eq, hbehind, hrest]

/-- The tokens in front can be read one by one. -/
theorem read_off_advance (h : s.unread = taken ++ rest) :
    ReadOff s taken (s.advance taken.length) := by
  induction taken generalizing s with
  | nil => exact .nil s
  | cons t others ih =>
    obtain ⟨hshown, hgiven, hunread, -⟩ := next_of_unread h
    exact .cons hshown hgiven (ih hunread)

/-- A place after the tokens that were read is that of the last of them. -/
theorem last_past (h : s.unread = taken ++ rest) : (s.advance taken.length).last =
    (taken.getLast?.map (·.location)).getD s.last := by
  induction taken generalizing s with
  | nil => rfl
  | cons t others ih =>
    obtain ⟨-, -, hunread, hlast⟩ := next_of_unread h
    rw [List.length_cons, advance, ih hunread, hlast, List.getLast?_cons]
    cases others.getLast? <;> rfl

/-- The loop comes to its end, at a token that fails the condition or at the end of the input. -/
theorem ReadOff.read_while {condition : Condition} (h : ReadOff s taken s')
    (hholds : ∀ t ∈ taken, condition.holds t = true)
    (hstop : ∀ t, s'.peek? 0 = some t → condition.holds t = false) :
    ReadWhile condition s taken s' := by
  induction h with
  | nil s => exact .stop hstop
  | cons hshown hgiven _ ih =>
    obtain ⟨hfirst, hothers⟩ := List.forall_mem_cons.mp hholds
    exact .again hshown hfirst hgiven (ih hothers hstop)

end TokenStream

/-- The longest part at the front of some tokens of which something holds. -/
structure LongestFront (good : List Token → Prop) (unread taken : List Token) : Prop where
  front : taken <+: unread
  holds : good taken
  longest : ∀ other, other <+: unread → good other → other.length ≤ taken.length

theorem longest_front_take_while (condition : Token → Bool) (unread : List Token) :
    LongestFront (fun tokens => ∀ t ∈ tokens, condition t = true) unread
      (unread.takeWhile condition) where
  front := List.takeWhile_prefix condition
  holds := List.all_eq_true.mp List.all_takeWhile
  longest := by
    rintro other ⟨rest, rfl⟩ hgood
    rw [List.takeWhile_append_of_pos hgood, List.length_append]
    exact Nat.le_add_right _ _

namespace Condition

/-- Tokens satisfy the first ones of some conditions, one to one. -/
def Fits (conditions : List Condition) (tokens : List Token) : Prop :=
  List.Forall₂ (fun condition t => condition.holds t = true) (conditions.take tokens.length) tokens

/-- The tokens that satisfy the conditions, up to the first that does not. -/
def fitting : List Condition → List Token → List Token
  | condition :: conditions, t :: rest =>
    if condition.holds t then t :: fitting conditions rest else []
  | _, _ => []

theorem longest_front_fitting (conditions : List Condition) (unread : List Token) :
    LongestFront (Fits conditions) unread (fitting conditions unread) := by
  fun_induction fitting conditions unread with
  | case1 condition conditions t rest hholds ih =>
    refine ⟨List.cons_prefix_cons.mpr ⟨rfl, ih.front⟩, .cons hholds ih.holds, ?_⟩
    intro other hfront hfits
    cases other with
    | nil => exact Nat.zero_le _
    | cons t' other =>
      obtain ⟨rfl, hother⟩ := List.cons_prefix_cons.mp hfront
      exact Nat.succ_le_succ (ih.longest other hother (List.forall₂_cons.mp hfits).2)
  | case2 condition conditions t rest hfails =>
    refine ⟨List.nil_prefix, .nil, fun other hfront hfits => ?_⟩
    cases other with
    | nil => exact Nat.zero_le _
    | cons t' other =>
      obtain ⟨rfl, -⟩ := List.cons_prefix_cons.mp hfront
      exact absurd (List.forall₂_cons.mp hfits).1 hfails
  | case3 conditions unread hends =>
    refine ⟨List.nil_prefix, .nil, fun other hfront hfits => ?_⟩
    cases other with
    | nil => exact Nat.zero_le _
    | cons t other =>
      obtain ⟨rest, rfl⟩ := hfront
      cases conditions with
      | nil => cases hfits
      | cons condition conditions =>
        exact absurd rfl (hends condition conditions t (other ++ rest) rfl)

theorem length_fitting_le (conditions : List Condition) (unread : List Token) :
    (fitting conditions unread).length ≤ conditions.length := by
  have hlen := (longest_front_fitting conditions unread).holds.length_eq
  rw [List.length_take] at hlen
  omega

/-- Behind the tokens that fit stands one that does not. -/
theorem fitting_stops {conditions : List Condition} {unread : List Token} {condition : Condition}
    {t : Token} (hnext : conditions[(fitting conditions unread).length]? = some condition)
    (ht : unread[(fitting conditions unread).length]? = some t) : condition.holds t = false := by
  fun_induction fitting conditions unread with
  | case1 _ _ _ _ _ ih => exact ih hnext ht
  | case2 _ _ _ _ hfails =>
    cases hnext
    cases ht
    exact Bool.eq_false_iff.mpr hfails
  | case3 conditions unread hends =>
    cases conditions with
    | nil => cases hnext
    | cons condition conditions =>
      cases unread with
      | nil => cases ht
      | cons t rest => exact absurd rfl (hends condition conditions t rest rfl)

theorem all_hold_iff_fitting (conditions : List Condition) (unread : List Token) :
    allHold conditions unread = true ↔ (fitting conditions unread).length = conditions.length := by
  fun_induction fitting conditions unread with
  | case1 condition conditions t rest hholds ih => simp [allHold, hholds, ih]
  | case2 condition conditions t rest hfails => simp [allHold, hfails]
  | case3 conditions unread hends =>
    cases conditions with
    | nil => simp [allHold]
    | cons condition conditions =>
      cases unread with
      | nil => simp [allHold]
      | cons t rest => exact absurd rfl (hends condition conditions t rest rfl)

/-- The conditions hold one to one if each holds of the token that many places ahead. -/
theorem all_hold_iff_get (conditions : List Condition) (unread : List Token) :
    allHold conditions unread = true ↔ ∀ i (h : i < conditions.length),
      ∃ t, unread[i]? = some t ∧ conditions[i].holds t = true := by
  induction conditions generalizing unread with
  | nil => simp [allHold]
  | cons condition conditions ih =>
    cases unread with
    | nil =>
      refine iff_of_false Bool.false_ne_true fun h => ?_
      obtain ⟨_, hnone, -⟩ := h 0 (Nat.zero_lt_succ _)
      cases hnone
    | cons t rest =>
      simp only [allHold, Bool.and_eq_true, ih]
      constructor
      · rintro ⟨hfirst, hothers⟩ (_ | i) h
        · exact ⟨t, rfl, hfirst⟩
        · exact hothers i (Nat.lt_of_succ_lt_succ h)
      · intro h
        refine ⟨?_, fun i hi => h (i + 1) (Nat.succ_lt_succ hi)⟩
        obtain ⟨_, hshown, hfirst⟩ := h 0 (Nat.zero_lt_succ _)
        cases hshown
        exact hfirst

end Condition

namespace Parser

/-- The error if the tokens do not go on as a condition asks. -/
def refusal (condition : Condition) (c : Cursor) : CompileError :=
  match c.unread with
  | t :: _ => .grammar t.location (.mismatch condition t.text)
  | [] => .grammar c.last (.missing condition)

theorem past_first (c : Cursor) (t : Token) (taken unread rest : List Token) :
    (Cursor.mk unread t.location).past taken rest = c.past (t :: taken) rest := by
  simp only [Cursor.past, List.getLast?_cons]
  cases taken.getLast? <;> rfl

/-- One token for each condition is read up to the first token that does not fit, or to the end of
the input. -/
theorem ensure_all_eq (conditions : List Condition) (c : Cursor) :
    let taken := Condition.fitting conditions c.unread
    let c' := c.past taken (c.unread.drop taken.length)
    ensureAll conditions c = match conditions[taken.length]? with
      | none => (.ok taken, c')
      | some condition => (.error (refusal condition c'), c') := by
  obtain ⟨unread, last⟩ := c
  induction conditions generalizing unread last with
  | nil => rfl
  | cons condition conditions ih =>
    cases unread with
    | nil => rfl
    | cons t rest =>
      by_cases hholds : condition.holds t = true
      · have hfirst : ensure condition ⟨t :: rest, last⟩ = (.ok t, ⟨rest, t.location⟩) :=
          Analysis.ensure_first hholds rest last
        have hothers := ih rest t.location
        simp only [past_first ⟨t :: rest, last⟩] at hothers
        simp only [Condition.fitting, hholds, if_true, List.length_cons, List.getElem?_cons_succ,
          List.drop_succ_cons]
        rw [ensureAll, Attempt.bind_ok hfirst, Attempt.bind_apply, hothers]
        cases conditions[(Condition.fitting conditions rest).length]? <;> rfl
      · simp [ensureAll, ensure, hholds, Attempt.bind_apply, refusal, Cursor.past,
          Condition.fitting]

/-- Reading some place ahead goes past all in front of that place, or past everything. -/
theorem read_eq (ahead : Nat) (c : Cursor) : read ahead c = match c.unread[ahead]? with
    | some t => (.ok t, c.past (c.unread.take (ahead + 1)) (c.unread.drop (ahead + 1)))
    | none => (.error (c.past c.unread []).endOfInput, c.past c.unread []) := by
  obtain ⟨unread, last⟩ := c
  induction ahead generalizing unread last with
  | zero => cases unread <;> rfl
  | succ ahead ih =>
    cases unread with
    | nil => rfl
    | cons t rest =>
      have hfirst : next ⟨t :: rest, last⟩ = (.ok t, ⟨rest, t.location⟩) := rfl
      have hothers := ih rest t.location
      simp only [past_first ⟨t :: rest, last⟩] at hothers
      rw [read, Attempt.bind_ok hfirst, hothers]
      rfl

end Parser

namespace Analysis

variable {s s' : Analysis} {taken rest : List Token}

@[simp] theorem unread_cursor (s : Analysis) : s.cursor.unread = s.stream.unread := rfl

theorem cursor_behind (h : s.stream.unread = taken ++ rest) :
    (s.past taken).cursor = s.cursor.past taken rest := by
  rw [cursor, unread_past h, past, last_past h]
  rfl

/-- What a parser reads it reads off the stream. -/
theorem parse_reads_off {α : Type} {p : Parser α} {result : Except CompileError α} {last : Location}
    (hu : s.stream.unread = taken ++ rest) (h : p s.cursor = (result, ⟨rest, last⟩)) :
    parse p s = (result, s.past taken) ∧ ReadOff s.stream taken (s.past taken).stream ∧
      (s.past taken).stream.unread = rest :=
  ⟨parse_of_reads hu h, read_off_advance hu, unread_past hu⟩

/-- A parser that reads nothing changes nothing. -/
theorem parse_looks {α : Type} {p : Parser α} {result : Except CompileError α}
    (h : p s.cursor = (result, s.cursor)) : parse p s = (result, s) :=
  parse_of_reads (show s.stream.unread = [] ++ s.stream.unread from rfl) h

/-- Looking ahead shows the tokens of the stream and changes nothing. -/
structure LooksAhead (s : Analysis) : Prop where
  peek : ∀ ahead, parse (Parser.peek ahead) s = (match s.stream.peek? ahead with
    | some t => .ok t
    | none => .error (.grammar s.stream.last .endOfInput), s)
  expects : ∀ conditions, ∃ fits, parse (Parser.expects conditions) s = (.ok fits, s) ∧
    (fits = true ↔ ∀ i (h : i < conditions.length), ∃ t,
      s.stream.peek? i = some t ∧ conditions[i].holds t = true)

theorem looks_ahead (s : Analysis) : LooksAhead s where
  peek ahead := by
    apply parse_looks
    rw [Parser.peek, peek_eq, unread_cursor]
    cases s.stream.unread[ahead]? <;> rfl
  expects conditions := by
    refine ⟨s.cursor.expects conditions, parse_looks rfl, ?_⟩
    simp only [peek_eq]
    exact Condition.all_hold_iff_get conditions s.stream.unread

/-- Reading some place ahead gives the token that is shown there. It and all in front of it are
read then. If there is none, everything is. -/
structure ReadsAhead (s : Analysis) (ahead : Nat) : Prop where
  same : ∀ t, (parse (Parser.read ahead) s).1 = .ok t ↔ (parse (Parser.peek ahead) s).1 = .ok t
  succeeds : ∀ t s', parse (Parser.read ahead) s = (.ok t, s') →
    ReadOff s.stream (s.stream.unread.take (ahead + 1)) s'.stream ∧
      s'.stream.unread = s.stream.unread.drop (ahead + 1)
  fails : ∀ e s', parse (Parser.read ahead) s = (.error e, s') →
    ReadOff s.stream s.stream.unread s'.stream ∧ s'.stream.unread = [] ∧
      e = .grammar s'.stream.last .endOfInput

theorem reads_ahead (s : Analysis) (ahead : Nat) : ReadsAhead s ahead := by
  have hpeek := (looks_ahead s).peek ahead
  have hread := Parser.read_eq ahead s.cursor
  rw [peek_eq] at hpeek
  rcases h : s.stream.unread[ahead]? with _ | t
  · have hall : s.stream.unread = s.stream.unread ++ [] := (List.append_nil _).symm
    simp only [unread_cursor, h] at hread hpeek
    obtain ⟨hparse, hreads, hunread⟩ := parse_reads_off hall hread
    rw [← cursor_behind hall] at hparse
    refine ⟨fun t => ?_, fun t s' ht => ?_, fun e s' he => ?_⟩
    · simp [hparse, hpeek]
    · cases hparse.symm.trans ht
    · cases hparse.symm.trans he
      exact ⟨hreads, hunread, rfl⟩
  · have hsplit := (List.take_append_drop (ahead + 1) s.stream.unread).symm
    simp only [unread_cursor, h] at hread hpeek
    obtain ⟨hparse, hreads, hunread⟩ := parse_reads_off hsplit hread
    refine ⟨fun t => ?_, fun t s' ht => ?_, fun e s' he => ?_⟩
    · simp [hparse, hpeek]
    · cases hparse.symm.trans ht
      exact ⟨hreads, hunread⟩
    · cases hparse.symm.trans he

/-- The tokens that fit in front are read, and the first condition that is left over is at fault. -/
theorem parse_ensure_all (s : Analysis) (conditions : List Condition) :
    let taken := Condition.fitting conditions s.stream.unread
    ReadOff s.stream taken (s.past taken).stream ∧
      s.stream.unread = taken ++ (s.past taken).stream.unread ∧
      parse (Parser.ensureAll conditions) s = (match conditions[taken.length]? with
        | none => .ok taken
        | some condition => .error (Parser.refusal condition (s.past taken).cursor),
        s.past taken) := by
  intro taken
  have hfront := (Condition.longest_front_fitting conditions s.stream.unread).front
  have hsplit : s.stream.unread = taken ++ s.stream.unread.drop taken.length := by
    conv_lhs => rw [← List.take_append_drop taken.length s.stream.unread,
      ← List.prefix_iff_eq_take.mp hfront]
  refine ⟨read_off_advance hsplit, by rw [unread_past hsplit]; exact hsplit, ?_⟩
  have hensure : Parser.ensureAll conditions s.cursor = (match conditions[taken.length]? with
      | none => .ok taken
      | some condition => .error (Parser.refusal condition (s.past taken).cursor),
      s.cursor.past taken (s.stream.unread.drop taken.length)) := by
    rw [Parser.ensure_all_eq, unread_cursor, cursor_behind hsplit]
    cases conditions[taken.length]? <;> rfl
  exact parse_of_reads hsplit hensure

/-- One token for each condition is there exactly if looking ahead says so, and is read then. If
not, those are read that fit in front, and the next one or the end of the input is at fault. -/
structure EnsuresAhead (s : Analysis) (conditions : List Condition) : Prop where
  same : (∃ tokens s', parse (Parser.ensureAll conditions) s = (.ok tokens, s')) ↔
    parse (Parser.expects conditions) s = (.ok true, s)
  succeeds : ∀ tokens s', parse (Parser.ensureAll conditions) s = (.ok tokens, s') →
    tokens = s.stream.unread.take conditions.length ∧ ReadOff s.stream tokens s'.stream ∧
      s'.stream.unread = s.stream.unread.drop conditions.length
  fails : ∀ e s', parse (Parser.ensureAll conditions) s = (.error e, s') → ∃ taken condition,
    LongestFront (Condition.Fits conditions) s.stream.unread taken ∧
      ReadOff s.stream taken s'.stream ∧ s.stream.unread = taken ++ s'.stream.unread ∧
      conditions[taken.length]? = some condition ∧
      match s'.stream.peek? 0 with
      | some t => condition.holds t = false ∧
          e = .grammar t.location (.mismatch condition t.text)
      | none => e = .grammar s'.stream.last (.missing condition)

theorem ensures_ahead (s : Analysis) (conditions : List Condition) :
    EnsuresAhead s conditions := by
  have hexpects : parse (Parser.expects conditions) s =
    (.ok (Condition.allHold conditions s.stream.unread), s) := parse_looks rfl
  have hfits := Condition.all_hold_iff_fitting conditions s.stream.unread
  have hlongest := Condition.longest_front_fitting conditions s.stream.unread
  obtain ⟨hreads, hsplit, hparse⟩ := parse_ensure_all s conditions
  rcases hnext : conditions[(Condition.fitting conditions s.stream.unread).length]? with
    _ | condition
  · have hlen := Nat.le_antisymm (Condition.length_fitting_le conditions s.stream.unread)
      (List.getElem?_eq_none_iff.mp hnext)
    rw [hnext] at hparse
    refine ⟨?_, fun tokens s' ht => ?_, fun e s' he => ?_⟩
    · simp [hparse, hexpects, hfits.mpr hlen]
    · cases hparse.symm.trans ht
      rw [← hlen]
      exact ⟨List.prefix_iff_eq_take.mp hlongest.front, hreads, unread_advance _ _⟩
    · cases hparse.symm.trans he
  · have hlen := Nat.ne_of_lt (List.getElem?_eq_some_iff.mp hnext).1
    rw [hnext] at hparse
    refine ⟨?_, fun tokens s' ht => ?_, fun e s' he => ?_⟩
    · simp [hparse, hexpects, mt hfits.mp hlen]
    · cases hparse.symm.trans ht
    · cases hparse.symm.trans he
      refine ⟨_, condition, hlongest, hreads, hsplit, hnext, ?_⟩
      rw [peek_zero, Parser.refusal, unread_cursor]
      cases hbehind : (s.past _).stream.unread with
      | nil => rfl
      | cons t rest =>
        refine ⟨Condition.fitting_stops hnext ?_, rfl⟩
        rw [past, unread_advance] at hbehind
        rw [← List.head?_drop, hbehind, List.head?_cons]

/-- The next token is read if it is as expected, and else nothing is. -/
structure AcceptsAhead (s : Analysis) (condition : Condition) : Prop where
  expected : parse (Parser.expects [condition]) s = (.ok true, s) → ∃ t s',
    parse (Parser.accept condition) s = (.ok (some t), s') ∧ ReadOff s.stream [t] s'.stream ∧
      s.stream.unread = t :: s'.stream.unread
  unexpected : parse (Parser.expects [condition]) s = (.ok false, s) →
    parse (Parser.accept condition) s = (.ok none, s)

theorem accepts_ahead (s : Analysis) (condition : Condition) : AcceptsAhead s condition := by
  have hexpects : parse (Parser.expects [condition]) s =
    (.ok (Condition.allHold [condition] s.stream.unread), s) := parse_looks rfl
  rcases hu : s.stream.unread with _ | ⟨t, rest⟩
  · rw [hu] at hexpects
    refine ⟨fun h => ?_, fun _ => parse_looks ?_⟩
    · cases hexpects.symm.trans h
    · rw [Parser.accept, unread_cursor, hu]
  · rw [hu, Condition.allHold, Condition.allHold, Bool.and_true] at hexpects
    rcases hholds : condition.holds t with _ | _
    · rw [hholds] at hexpects
      refine ⟨fun h => ?_, fun _ => parse_looks ?_⟩
      · cases hexpects.symm.trans h
      · simp [Parser.accept, hu, hholds]
    · rw [hholds] at hexpects
      have hread : Parser.accept condition s.cursor = (.ok (some t), ⟨rest, t.location⟩) := by
        simp [Parser.accept, hu, hholds]
      obtain ⟨hparse, hreads, hunread⟩ :=
        parse_reads_off (show s.stream.unread = [t] ++ rest from hu) hread
      refine ⟨fun _ => ⟨t, s.past [t], hparse, hreads, by rw [hunread, hu]⟩, fun h => ?_⟩
      cases hexpects.symm.trans h

/-- Reading as long as a condition holds comes to an end, and gives all tokens up to the first of
which it does not hold. -/
def ConsumesAhead (s : Analysis) (condition : Condition) : Prop :=
  ∃ taken s', parse (Parser.consume condition) s = (.ok taken, s') ∧
    ReadWhile condition s.stream taken s'.stream ∧
    LongestFront (fun tokens => ∀ t ∈ tokens, condition.holds t = true) s.stream.unread taken ∧
    s.stream.unread = taken ++ s'.stream.unread

theorem consumes_ahead (s : Analysis) (condition : Condition) : ConsumesAhead s condition := by
  have hsplit := (List.takeWhile_append_dropWhile
    (p := condition.holds) (l := s.stream.unread)).symm
  have hlongest := longest_front_take_while condition.holds s.stream.unread
  obtain ⟨hparse, hreads, hunread⟩ :=
    parse_reads_off (p := Parser.consume condition) hsplit rfl
  refine ⟨_, _, hparse, hreads.read_while hlongest.holds fun t ht => ?_, hlongest, ?_⟩
  · have hstop := List.head?_dropWhile_not condition.holds s.stream.unread
    rw [peek_zero, hunread] at ht
    rw [ht] at hstop
    exact hstop
  · rw [hunread]
    exact hsplit

/-- Every look at the next tokens agrees with what reading them comes to: a token that is shown is
the one that is read, conditions that are expected can be ensured, and where they fail the longest
part that fits was read. This holds however the unread tokens lie in segments. -/
theorem cursor_operations_agree (s : Analysis) :
    LooksAhead s ∧ (∀ ahead, ReadsAhead s ahead) ∧
      (∀ conditions, EnsuresAhead s conditions) ∧
      ∀ condition, AcceptsAhead s condition ∧ ConsumesAhead s condition :=
  ⟨looks_ahead s, reads_ahead s, ensures_ahead s, fun condition =>
    ⟨accepts_ahead s condition, consumes_ahead s condition⟩⟩

end Analysis

end ResourceCompiler

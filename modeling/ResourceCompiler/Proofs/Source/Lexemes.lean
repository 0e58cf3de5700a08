import Mathlib
import ResourceCompiler.Source.Lexer

/-!
What a token is written as, said apart from the lexer. At a place where some token can be read the
lexer reads one, and no longer one could be read there.
-/

namespace ResourceCompiler.Lexer

/-- How a token is written: with the quotes or the mark that its text does not hold. -/
def written (kind : TokenKind) (text : List Char) : List Char :=
  match kind with
  | .directive => '@' :: text
  | .string => '"' :: (text ++ ['"'])
  | .resourceId => '#' :: text
  | .percentage => text ++ ['%']
  | _ => text

/-- What may stand behind the first digit of a number: digits, each with at most one grouping mark
in front. -/
inductive Grouped : List Char → Prop
  | nil : Grouped []
  | digit {d : Char} {ds : List Char} : d.isDigit = true → Grouped ds → Grouped (d :: ds)
  | marked {m d : Char} {ds : List Char} : Text.isGroupingMark m = true → d.isDigit = true →
      Grouped (d :: ds) → Grouped (m :: d :: ds)

/-- The texts that a token of a kind can have. -/
inductive IsToken : TokenKind → List Char → Prop
  | directive {name : List Char} : name ≠ [] → (∀ c ∈ name, continuesIdentifier c = true) →
      IsToken .directive name
  | identifier {c : Char} {rest : List Char} : startsIdentifier c = true →
      (∀ d ∈ rest, continuesIdentifier d = true) → IsToken .identifier (c :: rest)
  | string {text : List Char} : '"' ∉ text → IsToken .string text
  | resourceId {digits : List Char} : digits ≠ [] → (∀ c ∈ digits, c.isDigit = true) →
      IsToken .resourceId digits
  | integer {d : Char} {rest : List Char} : d.isDigit = true → Grouped rest →
      IsToken .integer (d :: rest)
  | percentage {d : Char} {rest : List Char} : d.isDigit = true → Grouped rest →
      IsToken .percentage (d :: rest)
  | mark {kind : TokenKind} {c : Char} : mark? c = some kind → IsToken kind [c]

/-! Numbers -/

variable {cs ds after : List Char} {c : Char}

theorem Grouped.tail (h : Grouped (c :: cs)) : Grouped cs := by
  cases h <;> assumption

theorem split_digits_append (cs : List Char) : (splitDigits cs).1 ++ (splitDigits cs).2 = cs := by
  fun_induction splitDigits cs <;> simp_all

theorem split_digits_cons (h : c.isDigit = true) (rest : List Char) :
    splitDigits (c :: rest) = (c :: (splitDigits rest).1, (splitDigits rest).2) := by
  cases rest <;> simp [splitDigits, h]

theorem grouped_split_digits (cs : List Char) : Grouped (splitDigits cs).1 := by
  fun_induction splitDigits cs with
  | case1 => exact .nil
  | case2 c hc => exact .digit hc .nil
  | case3 => exact .nil
  | case4 c next rest hc digits after hs ih =>
    rw [hs] at ih
    by_cases hd : c.isDigit = true
    · exact .digit hd ih
    · obtain ⟨hm, hn⟩ : Text.isGroupingMark c = true ∧ next.isDigit = true := by
        simpa [hd] using hc
      rw [split_digits_cons hn] at hs
      obtain ⟨rfl, -⟩ := Prod.mk.inj hs
      exact .marked hm hn ih
  | case5 => exact .nil

theorem split_digits_longest (h : Grouped ds) (hp : ds <+: cs) :
    ds.length ≤ (splitDigits cs).1.length := by
  fun_induction splitDigits cs generalizing ds with
  | case1 => exact hp.length_le
  | case2 => exact hp.length_le
  | case3 c hc =>
    cases h with
    | nil => exact Nat.le_refl _
    | digit hd _ =>
      obtain ⟨rfl, -⟩ := List.cons_prefix_cons.mp hp
      exact absurd hd hc
    | marked => exact absurd hp.length_le (by simp)
  | case4 c next rest hc digits after hs ih =>
    rw [hs] at ih
    cases ds with
    | nil => exact Nat.zero_le _
    | cons d ds =>
      obtain ⟨rfl, hrest⟩ := List.cons_prefix_cons.mp hp
      exact Nat.succ_le_succ (ih h.tail hrest)
  | case5 c next rest hc =>
    cases h with
    | nil => exact Nat.le_refl _
    | digit hd _ =>
      obtain ⟨rfl, -⟩ := List.cons_prefix_cons.mp hp
      simp [hd] at hc
    | marked hm hd _ =>
      obtain ⟨rfl, hrest⟩ := List.cons_prefix_cons.mp hp
      obtain ⟨rfl, -⟩ := List.cons_prefix_cons.mp hrest
      simp [hm, hd] at hc

theorem split_digits_grouped (h : Grouped ds)
    (hafter : ∀ c ∈ after.head?, c.isDigit = false ∧ Text.isGroupingMark c = false) :
    splitDigits (ds ++ after) = (ds, after) := by
  have hnone : splitDigits after = ([], after) := by
    cases after with
    | nil => rfl
    | cons c rest =>
      obtain ⟨hd, hm⟩ := hafter c rfl
      cases rest <;> simp [splitDigits, hd, hm]
  induction h with
  | nil => exact hnone
  | digit hd _ ih => rw [List.cons_append, split_digits_cons hd, ih]
  | marked hm hd _ ih =>
    rw [List.cons_append, List.cons_append] at *
    simp [splitDigits, hm, hd, ih]

/-! What a token starts with -/

/-- A mark starts no other token, and is written as it is. -/
theorem mark_apart {kind : TokenKind} (h : mark? c = some kind) :
    (c ≠ '@' ∧ c ≠ '"' ∧ c ≠ '#' ∧ c.isDigit = false ∧ startsIdentifier c = false) ∧
      ∀ text, written kind text = text := by
  unfold mark? at h
  split at h <;> cases h <;> exact ⟨by decide, fun _ => rfl⟩

theorem not_is_digit_of_starts_identifier (h : startsIdentifier c = true) : c.isDigit = false := by
  simp only [startsIdentifier, Char.isAlpha, Char.isUpper, Char.isLower, Bool.or_eq_true,
    Bool.and_eq_true, decide_eq_true_eq, beq_iff_eq, ge_iff_le, UInt32.le_iff_toNat_le] at h
  simp only [Char.isDigit, Bool.and_eq_false_iff, decide_eq_false_iff_not, ge_iff_le,
    UInt32.le_iff_toNat_le]
  rcases h with h | rfl
  · simp at h ⊢
    omega
  · decide

theorem identifier_apart (h : startsIdentifier c = true) :
    c ≠ '@' ∧ c ≠ '"' ∧ c ≠ '#' ∧ c.isDigit = false := by
  refine ⟨?_, ?_, ?_, not_is_digit_of_starts_identifier h⟩ <;> rintro rfl <;> revert h <;> decide

theorem digit_apart (h : c.isDigit = true) : c ≠ '@' ∧ c ≠ '"' ∧ c ≠ '#' := by
  refine ⟨?_, ?_, ?_⟩ <;> rintro rfl <;> revert h <;> decide

theorem lexeme_number (h : c.isDigit = true) (rest : List Char) :
    lexeme c rest = match splitDigits rest with
      | (digits, '%' :: after) => .ok ⟨.percentage, c :: digits, after⟩
      | (digits, after) => .ok ⟨.integer, c :: digits, after⟩ := by
  obtain ⟨hat, hquote, hhash⟩ := digit_apart h
  calc lexeme c rest
      = _ := if_neg (by simpa using hat)
    _ = _ := if_neg (by simpa using hquote)
    _ = _ := if_neg (by simpa using hhash)
    _ = _ := if_pos h

theorem lexeme_identifier (h : startsIdentifier c = true) (rest : List Char) :
    lexeme c rest = .ok ⟨.identifier, c :: rest.takeWhile continuesIdentifier,
      rest.dropWhile continuesIdentifier⟩ := by
  simp only [lexeme, beq_iff_eq, identifier_apart h, if_false, h, if_true, Bool.false_eq_true]

theorem lexeme_mark {kind : TokenKind} (h : mark? c = some kind) (rest : List Char) :
    lexeme c rest = .ok ⟨kind, [c], rest⟩ := by
  simp only [lexeme, beq_iff_eq, (mark_apart h).1, if_false, h, Bool.false_eq_true]

/-! What the lexer reads -/

/-- What the lexer reads is a token, and stands in front of the rest as it is written. -/
theorem lexeme_sound {rest : List Char} {l : Lexeme} (h : lexeme c rest = .ok l) :
    IsToken l.kind l.text ∧ written l.kind l.text ++ l.rest = c :: rest := by
  unfold lexeme at h
  split at h
  · rename_i hc
    obtain rfl : c = '@' := by simpa using hc
    split at h
    · cases h
    · rename_i hne
      cases h
      exact ⟨.directive (by simpa using hne) fun _ => List.mem_takeWhile_imp, by simp [written]⟩
  split at h
  · rename_i hc
    obtain rfl : c = '"' := by simpa using hc
    split at h
    · cases h
    · rename_i d behind hd
      cases h
      have hquote : d = '"' := by
        have hstop := List.head_dropWhile_not (· != '"') (l := rest) (by simp [hd])
        simpa [hd] using hstop
      refine ⟨.string fun hmem => ?_, ?_⟩
      · exact absurd (List.mem_takeWhile_imp hmem) (by simp)
      · have hsplit := List.takeWhile_append_dropWhile (p := (· != '"')) (l := rest)
        rw [hd, hquote] at hsplit
        simp [written, hsplit]
  split at h
  · rename_i hc
    obtain rfl : c = '#' := by simpa using hc
    split at h
    · cases h
    · rename_i hne
      cases h
      exact ⟨.resourceId (by simpa using hne) fun _ => List.mem_takeWhile_imp, by simp [written]⟩
  split at h
  · rename_i hc
    have happend := split_digits_append rest
    have hgrouped := grouped_split_digits rest
    split at h <;> rename_i hs <;> rw [hs] at happend hgrouped <;> cases h
    · exact ⟨.percentage hc hgrouped, by simp [written, ← happend]⟩
    · exact ⟨.integer hc hgrouped, by simp [written, ← happend]⟩
  split at h
  · rename_i hc
    cases h
    exact ⟨.identifier hc fun _ => List.mem_takeWhile_imp, by simp [written]⟩
  split at h
  · rename_i kind hm
    cases h
    exact ⟨.mark hm, by rw [(mark_apart hm).2]; rfl⟩
  · cases h

/-- A text in front of which every token ends. -/
def Stops (after : List Char) : Prop :=
  ∀ c ∈ after.head?, continuesIdentifier c = false ∧ Text.isGroupingMark c = false ∧ c ≠ '%'

theorem Stops.digit (h : Stops after) : ∀ c ∈ after.head?, c.isDigit = false := by
  intro c hc
  have hcontinues := (h c hc).1
  rw [continuesIdentifier, Bool.or_eq_false_iff] at hcontinues
  exact hcontinues.2

theorem run_stops {p : Char → Bool} (h : ∀ c ∈ after.head?, p c = false) :
    after.takeWhile p = [] ∧ after.dropWhile p = after := by
  cases after with
  | nil => exact ⟨rfl, rfl⟩
  | cons c rest => simp [h c rfl]

/-- Where a token stands the lexer reads one that is at least as long, and just this one if what
follows it does not go on with it. -/
theorem lexeme_covers {kind : TokenKind} {text rest : List Char} (h : IsToken kind text)
    (hw : written kind text = c :: rest) (after : List Char) :
    ∃ l, lexeme c (rest ++ after) = .ok l ∧
      (written kind text).length ≤ (written l.kind l.text).length ∧
      (Stops after → l = ⟨kind, text, after⟩) := by
  cases h with
  | directive hne hall =>
    obtain ⟨rfl, rfl⟩ := List.cons.inj hw
    refine ⟨⟨.directive, text ++ after.takeWhile continuesIdentifier,
      after.dropWhile continuesIdentifier⟩, ?_, by simp [written], fun hstops => ?_⟩
    · simp [lexeme, List.takeWhile_append_of_pos hall, List.dropWhile_append_of_pos hall, hne]
    · obtain ⟨htake, hdrop⟩ := run_stops fun c hc => (hstops c hc).1
      rw [htake, hdrop, List.append_nil]
  | identifier hc hall =>
    obtain ⟨rfl, rfl⟩ := List.cons.inj hw
    refine ⟨_, lexeme_identifier hc _, ?_, fun hstops => ?_⟩
    · simp [written, List.takeWhile_append_of_pos hall]
    · obtain ⟨htake, hdrop⟩ := run_stops fun c hc => (hstops c hc).1
      rw [List.takeWhile_append_of_pos hall, List.dropWhile_append_of_pos hall, htake, hdrop,
        List.append_nil]
  | string hquote =>
    obtain ⟨rfl, rfl⟩ := List.cons.inj hw
    have hall : ∀ c ∈ text, (c != '"') = true :=
      fun c hc => bne_iff_ne.mpr fun he => hquote (he ▸ hc)
    refine ⟨⟨.string, text, after⟩, ?_, Nat.le_refl _, fun _ => rfl⟩
    simp [lexeme, List.takeWhile_append_of_pos hall, List.dropWhile_append_of_pos hall]
  | resourceId hne hall =>
    obtain ⟨rfl, rfl⟩ := List.cons.inj hw
    refine ⟨⟨.resourceId, text ++ after.takeWhile Char.isDigit, after.dropWhile Char.isDigit⟩, ?_,
      by simp [written], fun hstops => ?_⟩
    · simp [lexeme, List.takeWhile_append_of_pos hall, List.dropWhile_append_of_pos hall, hne]
    · obtain ⟨htake, hdrop⟩ := run_stops hstops.digit
      rw [htake, hdrop, List.append_nil]
  | integer hd hds =>
    obtain ⟨rfl, rfl⟩ := List.cons.inj hw
    have hlonger := split_digits_longest hds (List.prefix_append _ after)
    have hexact (hstops : Stops after) := split_digits_grouped hds
      fun c hc => ⟨hstops.digit c hc, (hstops c hc).2.1⟩
    rw [lexeme_number hd]
    split <;> rename_i hs <;> rw [hs] at hlonger <;> refine ⟨_, rfl, ?_, fun hstops => ?_⟩
    · simpa [written] using Nat.le_succ_of_le hlonger
    · obtain ⟨-, rfl⟩ := Prod.mk.inj (hs.symm.trans (hexact hstops))
      exact absurd rfl (hstops '%' rfl).2.2
    · exact Nat.succ_le_succ hlonger
    · obtain ⟨rfl, rfl⟩ := Prod.mk.inj (hs.symm.trans (hexact hstops))
      rfl
  | percentage hd hds =>
    obtain ⟨rfl, rfl⟩ := List.cons.inj hw
    have hs : splitDigits (_ ++ '%' :: after) = _ :=
      split_digits_grouped hds (by simp; decide)
    refine ⟨⟨.percentage, _, after⟩, ?_, Nat.le_refl _, fun _ => rfl⟩
    rw [lexeme_number hd, List.append_eq, List.append_assoc, List.singleton_append, hs]
    rfl
  | mark hm =>
    rw [(mark_apart hm).2] at hw ⊢
    obtain ⟨rfl, rfl⟩ := List.cons.inj hw
    refine ⟨_, lexeme_mark hm _, ?_, fun _ => rfl⟩
    rw [(mark_apart hm).2]

/-- A character that is neither white space nor the end of a line. -/
def Visible (c : Char) : Prop := isBlank c = false ∧ c ≠ '\n'

theorem visible_of_continues_identifier (h : continuesIdentifier c = true) : Visible c := by
  simp only [Visible, isBlank, Bool.or_eq_false_iff, beq_eq_false_iff_ne]
  refine ⟨⟨⟨?_, ?_⟩, ?_⟩, ?_⟩ <;> rintro rfl <;> revert h <;> decide

theorem visible_of_is_digit (h : c.isDigit = true) : Visible c :=
  visible_of_continues_identifier (by rw [continuesIdentifier, h, Bool.or_true])

theorem visible_of_is_grouping_mark (h : Text.isGroupingMark c = true) : Visible c := by
  simp only [Text.isGroupingMark, Bool.or_eq_true, beq_iff_eq] at h
  rcases h with rfl | rfl <;> exact ⟨rfl, by decide⟩

theorem Grouped.visible (h : Grouped ds) : ∀ c ∈ ds, Visible c := by
  induction h with
  | nil => simp
  | digit hd _ ih => exact List.forall_mem_cons.mpr ⟨visible_of_is_digit hd, ih⟩
  | marked hm _ _ ih =>
    exact List.forall_mem_cons.mpr ⟨visible_of_is_grouping_mark hm, ih⟩

theorem not_visible_space : ¬ Visible ' ' := by simp [Visible, isBlank]

theorem not_visible_newline : ¬ Visible '\n' := by simp [Visible]

/-- White space ends every token. -/
theorem stops_of_not_visible (h : ¬ Visible c) (after : List Char) : Stops (c :: after) := by
  intro d hd
  obtain rfl := Option.some.inj hd
  refine ⟨?_, ?_, ?_⟩
  · exact Bool.eq_false_iff.mpr fun hc => h (visible_of_continues_identifier hc)
  · exact Bool.eq_false_iff.mpr fun hm => h (visible_of_is_grouping_mark hm)
  · rintro rfl
    exact h ⟨rfl, by decide⟩

theorem mark_visible {kind : TokenKind} (h : mark? c = some kind) : Visible c := by
  unfold mark? at h
  split at h <;> cases h <;> exact ⟨rfl, by decide⟩

/-- Only a string can hold white space, and that stands between its quotes. -/
theorem token_visible {kind : TokenKind} {text : List Char} (h : IsToken kind text) :
    (∃ c rest, written kind text = c :: rest ∧ Visible c) ∧
      ∃ front c, written kind text = front ++ [c] ∧ Visible c := by
  suffices hall : kind = .string ∨ written kind text ≠ [] ∧ ∀ c ∈ written kind text, Visible c by
    rcases hall with rfl | ⟨hne, hall⟩
    · have hquote : Visible '"' := ⟨rfl, by decide⟩
      exact ⟨⟨_, _, rfl, hquote⟩, '"' :: text, _, rfl, hquote⟩
    · obtain ⟨c, rest, hfirst⟩ := List.exists_cons_of_ne_nil hne
      obtain ⟨front, d, hlast⟩ := (List.eq_nil_or_concat _).resolve_left hne
      rw [List.concat_eq_append] at hlast
      exact ⟨⟨c, rest, hfirst, hall c (by simp [hfirst])⟩, front, d, hlast,
        hall d (by simp [hlast])⟩
  cases h with
  | directive hne hname =>
    refine .inr ⟨List.cons_ne_nil _ _, List.forall_mem_cons.mpr ⟨⟨rfl, by decide⟩, ?_⟩⟩
    exact fun c hc => visible_of_continues_identifier (hname c hc)
  | @identifier c rest hc hrest =>
    have hfirst : continuesIdentifier c = true := by rw [continuesIdentifier, hc, Bool.true_or]
    refine .inr ⟨List.cons_ne_nil _ _, ?_⟩
    exact List.forall_mem_cons.mpr ⟨visible_of_continues_identifier hfirst,
      fun d hd => visible_of_continues_identifier (hrest d hd)⟩
  | string => exact .inl rfl
  | resourceId hne hdigits =>
    refine .inr ⟨List.cons_ne_nil _ _, List.forall_mem_cons.mpr ⟨⟨rfl, by decide⟩, ?_⟩⟩
    exact fun c hc => visible_of_is_digit (hdigits c hc)
  | integer hd hds =>
    exact .inr ⟨List.cons_ne_nil _ _,
      List.forall_mem_cons.mpr ⟨visible_of_is_digit hd, hds.visible⟩⟩
  | percentage hd hds =>
    refine .inr ⟨List.cons_ne_nil _ _, List.forall_mem_cons.mpr ⟨visible_of_is_digit hd, ?_⟩⟩
    exact List.forall_mem_append.mpr ⟨hds.visible, by simp [Visible, isBlank]⟩
  | mark hm =>
    rw [(mark_apart hm).2]
    exact .inr ⟨List.cons_ne_nil _ _, by simpa using mark_visible hm⟩

/-- Two tokens that are written alike are the same. -/
theorem token_eq_of_written {kind kind' : TokenKind} {text text' : List Char}
    (h : IsToken kind text) (h' : IsToken kind' text')
    (hw : written kind text = written kind' text') : kind = kind' ∧ text = text' := by
  obtain ⟨c, rest, hc, -⟩ := (token_visible h).1
  have hstops : Stops [] := by simp [Stops]
  obtain ⟨l, hl, -, hexact⟩ := lexeme_covers h hc []
  obtain ⟨l', hl', -, hexact'⟩ := lexeme_covers h' (hw ▸ hc) []
  obtain rfl : l = l' := Except.ok.inj (hl.symm.trans hl')
  have heq := (hexact hstops).symm.trans (hexact' hstops)
  exact ⟨congrArg Lexeme.kind heq, congrArg Lexeme.text heq⟩

/-- Only a semicolon is written with one in front. -/
theorem kind_of_semicolon {kind : TokenKind} {text rest : List Char} (h : IsToken kind text)
    (hw : written kind text = ';' :: rest) : kind = .semicolon := by
  obtain ⟨l, hl, -, hexact⟩ := lexeme_covers h hw []
  have hmark : lexeme ';' (rest ++ []) = .ok ⟨.semicolon, [';'], rest ++ []⟩ := lexeme_mark rfl _
  rw [hexact (by simp [Stops]), hmark] at hl
  exact (congrArg Lexeme.kind (Except.ok.inj hl)).symm

theorem count_written (kind : TokenKind) (text : List Char) :
    (written kind text).count '\n' = text.count '\n' := by
  cases kind <;> simp [written]

end ResourceCompiler.Lexer

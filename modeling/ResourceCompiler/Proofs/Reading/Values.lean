import ResourceCompiler.Proofs.Reading.Grammar
import ResourceCompiler.Proofs.Reading.Spelling
import ResourceCompiler.Proofs.Text.Decimal

/-!
How a value can be spelled, and that it is read back from any of its spellings.
-/

namespace ResourceCompiler

open ResourceCompiler.Parser

namespace Text

theorem pieces_of_not_mem {separator : Char} {text : List Char} (h : separator ∉ text) :
    pieces separator text = [text] := by
  induction text with
  | nil => rfl
  | cons c rest ih =>
    rw [List.mem_cons, not_or] at h
    rw [pieces, if_neg (Ne.symm h.1), ih h.2]

/-- The first separator ends the first piece. -/
theorem pieces_append {separator : Char} {piece : List Char} (h : separator ∉ piece)
    (rest : List Char) :
    pieces separator (piece ++ separator :: rest) = piece :: pieces separator rest := by
  induction piece with
  | nil => rw [List.nil_append, pieces, if_pos rfl]
  | cons c piece ih =>
    rw [List.mem_cons, not_or] at h
    rw [List.cons_append, pieces, if_neg (Ne.symm h.1), ih h.2]

theorem not_mem_repr {n : Nat} {c : Char} (h : c.isDigit = false) : c ∉ (toString n).toList :=
  fun hc => by simp [is_digit_of_mem_repr hc] at h

end Text

namespace Value

/-- The value wherever it stands. -/
def plain (v : Value) : Value := { v with location := .unknown }

/-- The spelling of a colour by its three channels. -/
def colorSpelling (red green blue : Nat) : List Spelling :=
  [(.identifier, "rgb"), (.leftParen, "("), (.integer, toString red), (.comma, ","),
    (.integer, toString green), (.comma, ","), (.integer, toString blue), (.rightParen, ")")]

/-- Whether tokens spell a value. A number below zero has its sign in a token of its own, and may
be a percentage there. -/
def Spells (v : Value) (spelled : List Spelling) : Prop :=
  match v.form with
  | .identifier => spelled = [(.identifier, v.text)]
  | .string => spelled = [(.string, v.text)]
  | .resourceId => spelled = [(.resourceId, v.text)]
  | .percentage => spelled = [(.percentage, v.text)]
  | .integer => spelled = [(.integer, v.text)] ∨ ∃ digits, v.text = "-" ++ digits ∧
      (spelled = [(.minus, "-"), (.integer, digits)] ∨
        spelled = [(.minus, "-"), (.percentage, digits)])
  | .fileReference => spelled =
      [(.identifier, "file"), (.leftParen, "("), (.string, v.text), (.rightParen, ")")]
  | .color => ∃ red green blue, red ≤ 255 ∧ green ≤ 255 ∧ blue ≤ 255 ∧
      v.text = toString ((red * 256 + green) * 256 + blue) ∧ spelled = colorSpelling red green blue

/-- A value that can be spelled: a colour is kept as the digits of its number. -/
def Spellable (v : Value) : Prop := v.form = .color → ∃ n ≤ 0xFFFFFF, v.text = toString n

theorem Spellable.spells {v : Value} (h : v.Spellable) : ∃ spelled, v.Spells spelled := by
  unfold Spells
  cases hf : v.form with
  | identifier | string | resourceId | percentage | fileReference => exact ⟨_, rfl⟩
  | integer => exact ⟨_, .inl rfl⟩
  | color =>
    obtain ⟨n, hn, htext⟩ := h hf
    refine ⟨_, n / 65536, n / 256 % 256, n % 256, by omega, by omega, by omega, ?_, rfl⟩
    rw [htext]
    congr 1
    omega

end Value

namespace Literal

variable {follow : Option TokenKind → Prop}

theorem channel_repr {n : Nat} (h : n ≤ 255) : channel? (toString n).toList = some n := by
  have hfilter : (toString n).toList.filter (· ≠ '_') = (toString n).toList :=
    List.filter_eq_self.mpr fun c hc => by
      have hne : c ≠ '_' := fun he => Text.not_mem_repr (by decide) (he ▸ hc)
      simpa using hne
  rw [channel?, hfilter, Text.digits_value_repr, Option.filter_some, if_pos (by simpa using h)]

/-- The text of three channels, which the digits between the commas are. -/
def channelText (red green blue : Nat) : String :=
  "" ++ toString red ++ "," ++ toString green ++ "," ++ toString blue

theorem pieces_channel_text (red green blue : Nat) :
    Text.pieces ',' (channelText red green blue).toList =
      [(toString red).toList, (toString green).toList, (toString blue).toList] := by
  have hcomma (n : Nat) : ',' ∉ (toString n).toList := Text.not_mem_repr (by decide)
  have htext : (channelText red green blue).toList = (toString red).toList ++ ',' ::
      ((toString green).toList ++ ',' :: (toString blue).toList) := by
    simp only [channelText, String.toList_append, List.append_assoc]
    rfl
  rw [htext, Text.pieces_append (hcomma red), Text.pieces_append (hcomma green),
    Text.pieces_of_not_mem (hcomma blue)]

theorem color_number_eq {red green blue : Nat} (hr : red ≤ 255) (hg : green ≤ 255)
    (hb : blue ≤ 255) (location : Location) :
    colorNumber location [(toString red).toList, (toString green).toList, (toString blue).toList] =
      .ok ((red * 256 + green) * 256 + blue) := by
  simp only [colorNumber, List.foldlM_cons, channel_repr hr, channel_repr hg, channel_repr hb,
    List.foldlM_nil, Nat.zero_mul, Nat.zero_add]
  rfl

/-- A round of the text in parentheses. -/
def colorRound (text : String) : Parser (Round String) := do
  let t ← next
  match t.kind with
  | .rightParen => return .done text
  | .integer => return .again (text ++ t.text)
  | .comma => return .again (text ++ ",")
  | _ => failGrammar t.location (.unexpectedInColor t.text)

theorem progresses_color_round : ∀ text, Progresses (colorRound text) :=
  fun text => (local_color_round text).progresses

/-- A number or a comma, and what the other rounds read. -/
theorem reads_color_part {text written added : String} {kind : TokenKind} {others : List Spelling}
    {wanted : String → Prop}
    (hkind : kind = .integer ∧ added = written ∨ kind = .comma ∧ added = ",")
    (h : Reads (repeating colorRound (text ++ added)) others anything wanted) :
    Reads (repeating colorRound text) ((kind, written) :: others) anything wanted := by
  have hround : Reads (colorRound text) [(kind, written)] anything
      fun r => ∃ b', r = .again b' ∧ b' = text ++ added := by
    refine reads_next fun t ht htext => ?_
    rcases hkind with ⟨rfl, rfl⟩ | ⟨rfl, rfl⟩
    · rw [ht, htext]
      exact reads_pure ⟨_, rfl, rfl⟩
    · rw [ht]
      exact reads_pure ⟨_, rfl, rfl⟩
  exact reads_again anything progresses_color_round hround (fun b' hb' => hb' ▸ h)
    fun _ _ => trivial

theorem reads_color_text (red green blue : Nat) :
    Reads colorText [(.integer, toString red), (.comma, ","), (.integer, toString green),
      (.comma, ","), (.integer, toString blue), (.rightParen, ")")] anything
      (· = channelText red green blue) := by
  have hnumber (n : Nat) : TokenKind.integer = .integer ∧ toString n = toString n ∨
      TokenKind.integer = .comma ∧ toString n = "," := .inl ⟨rfl, rfl⟩
  have hcomma : TokenKind.comma = .integer ∧ "," = "," ∨ TokenKind.comma = .comma ∧ "," = "," :=
    .inr ⟨rfl, rfl⟩
  refine reads_color_part (hnumber red) (reads_color_part hcomma (reads_color_part (hnumber green)
    (reads_color_part hcomma (reads_color_part (hnumber blue)
      (reads_done progresses_color_round ?_)))))
  refine reads_next fun t hkind _ => ?_
  rw [hkind]
  exact reads_pure ⟨_, rfl, rfl⟩

theorem reads_color {red green blue : Nat} (hr : red ≤ 255) (hg : green ≤ 255) (hb : blue ≤ 255)
    (head : Token) : Reads (color head) ((Value.colorSpelling red green blue).tail) follow
      fun v => v.plain = ⟨.color, toString ((red * 256 + green) * 256 + blue), .unknown⟩ := by
  refine reads_token fun _ _ _ => ?_
  rw [← List.append_nil [_, _, _, _, _, _]]
  refine (reads_color_text red green blue).bind fun text htext => ?_
  subst htext
  dsimp only
  rw [pieces_channel_text, if_neg (by simp), color_number_eq hr hg hb]
  exact reads_pure rfl

/-- A word that does not start a literal. -/
theorem reads_word {t : Token} :
    Reads (word t) [] (· ≠ some .leftParen) fun v => v.plain = ⟨.identifier, t.text, .unknown⟩ := by
  refine reads_next_is false ?_ fun k hk => (decide_eq_false (by simpa using hk)).symm
  simp only [Bool.and_false, Bool.false_eq_true, if_false]
  exact reads_pure rfl

/-- A word that starts a literal, from the parenthesis on. -/
theorem reads_literal {t : Token} {p : Parser Value} {text : String} {others : List Spelling}
    {wanted : Value → Prop}
    (ht : t.text = "file" ∧ p = fileReference t ∨ t.text = "rgb" ∧ p = color t)
    (hp : Reads p ((.leftParen, text) :: others) follow wanted) :
    Reads (word t) ((.leftParen, text) :: others) follow wanted := by
  refine reads_next_is true ?_ fun k _ => by simp
  rcases ht with ⟨ht, rfl⟩ | ⟨ht, rfl⟩
  · simp only [ht]
    exact hp
  · simp only [ht]
    exact hp

/-- A value is read back from each of its spellings. A word may only be followed by a parenthesis
where it starts a literal. -/
theorem reads_value {v : Value} {spelled : List Spelling} (h : v.Spells spelled) :
    Reads value spelled (· ≠ some .leftParen) fun read => read.plain = v.plain := by
  obtain ⟨form, text, location⟩ := v
  unfold Value.Spells at h
  cases form with
  | identifier =>
    obtain rfl := h
    refine reads_next fun t hkind htext => ?_
    rw [hkind]
    exact reads_word.mono (fun _ hk => hk) fun a ha => by rw [ha, htext]; rfl
  | string | resourceId | percentage =>
    obtain rfl := h
    refine reads_next fun t hkind htext => ?_
    rw [hkind, htext]
    exact reads_pure rfl
  | integer =>
    rcases h with rfl | ⟨digits, rfl, rfl | rfl⟩
    · refine reads_next fun t hkind htext => ?_
      rw [hkind, htext]
      exact reads_pure rfl
    · refine reads_next fun t hkind _ => ?_
      rw [hkind]
      refine reads_not_accepted ?_ fun k _ => by simp
      refine reads_token fun t _ htext => ?_
      rw [← htext]
      exact reads_pure rfl
    · refine reads_next fun t hkind _ => ?_
      rw [hkind]
      refine reads_accepted fun t _ htext => ?_
      rw [← htext]
      exact reads_pure rfl
  | fileReference =>
    obtain rfl := h
    refine reads_next fun t hkind htext => ?_
    rw [hkind]
    refine reads_literal (.inl ⟨htext, rfl⟩) ?_
    refine reads_token fun _ _ _ => reads_token fun path _ hpath => reads_token fun _ _ _ => ?_
    rw [hpath]
    exact reads_pure rfl
  | color =>
    obtain ⟨red, green, blue, hr, hg, hb, rfl, rfl⟩ := h
    refine reads_next fun t hkind htext => ?_
    rw [hkind]
    exact reads_literal (.inr ⟨htext, rfl⟩) (reads_color hr hg hb t)

end Literal

end ResourceCompiler

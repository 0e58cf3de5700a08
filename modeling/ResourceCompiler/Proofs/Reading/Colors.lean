import Mathlib
import ResourceCompiler.Proofs.Reading.Values
import ResourceCompiler.Source.Lexer

/-!
Which tokens make up a colour. The lexer may have read any of the commas between the numbers as
digit grouping, so a token stands for the parts that it was fused from. A colour takes the parts up
to the closing parenthesis if they are three numbers with a comma between neighbours.
-/

namespace ResourceCompiler

open ResourceCompiler.Parser

/-- A cut text has no separator in its pieces. -/
theorem Text.not_mem_of_mem_pieces {separator : Char} {text piece : List Char}
    (h : piece ∈ pieces separator text) : separator ∉ piece := by
  induction text generalizing piece with
  | nil =>
    obtain rfl := List.mem_singleton.mp h
    exact List.not_mem_nil
  | cons c rest ih =>
    unfold pieces at h
    split at h
    · rcases List.mem_cons.mp h with rfl | h
      · exact List.not_mem_nil
      · exact ih h
    · rename_i hc
      split at h
      · obtain rfl := List.mem_singleton.mp h
        simpa using Ne.symm hc
      · rename_i first others hp
        rcases List.mem_cons.mp h with rfl | h
        · have hfirst : separator ∉ first := ih (by rw [hp]; exact List.mem_cons_self)
          simpa [hfirst] using Ne.symm hc
        · exact ih (by rw [hp]; exact List.mem_cons_of_mem _ h)

/-- What may stand between the parentheses of a colour. -/
inductive ColorPart
  | number (digits : List Char)
  | comma
  | other
deriving DecidableEq

namespace ColorPart

/-- Numbers with a comma between neighbours. -/
def numbers : List (List Char) → List ColorPart
  | [] => []
  | [digits] => [number digits]
  | digits :: rest => number digits :: comma :: numbers rest

/-- The parts that a token was read from. -/
def ofToken (t : Token) : List ColorPart :=
  match t.kind with
  | .integer => numbers (Text.pieces ',' t.text.toList)
  | .comma => [comma]
  | _ => [other]

/-- The parts of several tokens. -/
def ofTokens (tokens : List Token) : List ColorPart := tokens.flatMap ofToken

def isNumber : ColorPart → Bool
  | number _ => true
  | _ => false

/-- No number stands next to another one. -/
def Separated (parts : List ColorPart) : Prop :=
  parts.IsChain fun first second => ¬(first.isNumber ∧ second.isNumber)

instance (parts : List ColorPart) : Decidable (Separated parts) :=
  inferInstanceAs (Decidable (parts.IsChain _))

theorem of_tokens_cons (t : Token) (rest : List Token) :
    ofTokens (t :: rest) = ofToken t ++ ofTokens rest :=
  List.flatMap_cons

/-- A number that a byte holds, its digits grouped by underscores or not. -/
def IsChannel (digits : List Char) (value : Nat) : Prop :=
  Text.digitsValue? (digits.filter (· ≠ '_')) = some value ∧ value ≤ 255

instance (digits : List Char) (value : Nat) : Decidable (IsChannel digits value) :=
  inferInstanceAs (Decidable (_ ∧ _))

/-- A part that a colour can be made of. A comma in a number would have cut it. -/
def Usable : ColorPart → Prop
  | number digits => ',' ∉ digits
  | comma => True
  | other => False

def text : ColorPart → List Char
  | number digits => digits
  | comma => [',']
  | other => []

variable {parts : List ColorPart}

theorem text_numbers (pieces : List (List Char)) :
    (numbers pieces).flatMap text = Text.joined ',' pieces := by
  induction pieces with
  | nil => rfl
  | cons digits rest ih =>
    cases rest with
    | nil => simp [numbers, text, Text.joined]
    | cons next rest => simp [numbers, text, Text.joined, ih]

theorem usable_numbers {pieces : List (List Char)} (h : ∀ digits ∈ pieces, ',' ∉ digits) :
    ∀ part ∈ numbers pieces, part.Usable := by
  induction pieces with
  | nil => exact fun _ hpart => absurd hpart List.not_mem_nil
  | cons digits rest ih =>
    have hdigits := h digits List.mem_cons_self
    have hrest := ih fun d hd => h d (List.mem_cons_of_mem _ hd)
    cases rest with
    | nil => simpa [numbers, Usable] using hdigits
    | cons next rest => simpa [numbers, Usable] using And.intro hdigits hrest

/-- An integer or a comma. -/
def Fused (t : Token) : Prop := t.kind = .integer ∨ t.kind = .comma

theorem usable_of_token {t : Token} (h : Fused t) : ∀ part ∈ ofToken t, part.Usable := by
  rcases h with h | h
  · simp only [ofToken, h]
    exact usable_numbers fun _ hd => Text.not_mem_of_mem_pieces hd
  · simp [ofToken, h, Usable]

theorem fused_of_token {t : Token} (h : other ∉ ofToken t) : Fused t := by
  unfold ofToken at h
  split at h
  · rename_i hkind
    exact .inl hkind
  · rename_i hkind
    exact .inr hkind
  · exact absurd List.mem_cons_self h

theorem usable_of_tokens {tokens : List Token} (h : ∀ t ∈ tokens, Fused t) :
    ∀ part ∈ ofTokens tokens, part.Usable := by
  intro part hpart
  obtain ⟨t, ht, hpart⟩ := List.mem_flatMap.mp hpart
  exact usable_of_token (h t ht) part hpart

theorem fused_of_tokens {tokens : List Token} (h : other ∉ ofTokens tokens) :
    ∀ t ∈ tokens, Fused t :=
  fun t ht => fused_of_token fun hother => h (List.mem_flatMap.mpr ⟨t, ht, hother⟩)

theorem IsChannel.ne_nil {digits : List Char} {value : Nat} (h : IsChannel digits value) :
    digits ≠ [] := by
  rintro rfl
  simp [IsChannel, Text.digitsValue?] at h

theorem Separated.tail {part : ColorPart} (h : Separated (part :: parts)) : Separated parts := by
  cases parts with
  | nil => exact .nil
  | cons next rest => exact (List.isChain_cons_cons.mp h).2

/-- The first piece of the text, if there is something in it, is the first number. Behind it is the
end or a comma. -/
theorem first_piece {digits : List Char} {others : List (List Char)}
    (husable : ∀ part ∈ parts, part.Usable) (hseparated : Separated parts)
    (hpieces : Text.pieces ',' (parts.flatMap text) = digits :: others) (hdigits : digits ≠ []) :
    parts = [number digits] ∧ others = [] ∨
      ∃ rest, parts = number digits :: comma :: rest ∧
        Text.pieces ',' (rest.flatMap text) = others := by
  cases parts with
  | nil =>
    cases hpieces
    exact absurd rfl hdigits
  | cons part rest =>
    cases part with
    | other => exact (husable other List.mem_cons_self).elim
    | comma =>
      rw [List.flatMap_cons, text, List.cons_append, Text.pieces, if_pos rfl] at hpieces
      cases hpieces
      exact absurd rfl hdigits
    | number d =>
      have hd : ',' ∉ d := husable (number d) List.mem_cons_self
      cases rest with
      | nil =>
        rw [List.flatMap_cons, List.flatMap_nil, List.append_nil, text,
          Text.pieces_of_not_mem hd] at hpieces
        cases hpieces
        exact .inl ⟨rfl, rfl⟩
      | cons next rest =>
        cases next with
        | other => exact (husable other (by simp)).elim
        | number e => exact ((List.isChain_cons_cons.mp hseparated).1 ⟨rfl, rfl⟩).elim
        | comma =>
          rw [List.flatMap_cons, List.flatMap_cons, text, text, List.singleton_append,
            Text.pieces_append hd] at hpieces
          cases hpieces
          exact .inr ⟨rest, rfl, rfl⟩

/-- Three pieces with something in them are three numbers with commas between them. -/
theorem pieces_eq_three {red green blue : List Char} (husable : ∀ part ∈ parts, part.Usable)
    (hseparated : Separated parts) (hred : red ≠ []) (hgreen : green ≠ []) (hblue : blue ≠ []) :
    Text.pieces ',' (parts.flatMap text) = [red, green, blue] ↔
      parts = [number red, comma, number green, comma, number blue] := by
  constructor
  · intro hthree
    rcases first_piece husable hseparated hthree hred with ⟨-, hnil⟩ | ⟨behind, rfl, htwo⟩
    · cases hnil
    · have hbehind : ∀ part ∈ behind, part.Usable := fun part hpart => husable part (by simp [hpart])
      rcases first_piece hbehind hseparated.tail.tail htwo hgreen with ⟨-, hnil⟩ | ⟨last, rfl, hone⟩
      · cases hnil
      · have hlast : ∀ part ∈ last, part.Usable := fun part hpart => hbehind part (by simp [hpart])
        rcases first_piece hlast hseparated.tail.tail.tail.tail hone hblue with
          ⟨rfl, -⟩ | ⟨rest, -, hnone⟩
        · rfl
        · exact absurd hnone (Text.pieces_ne_nil _ _)
  · rintro rfl
    have hr : ',' ∉ red := husable (number red) (by simp)
    have hg : ',' ∉ green := husable (number green) (by simp)
    have hb : ',' ∉ blue := husable (number blue) (by simp)
    simp only [List.flatMap_cons, List.flatMap_nil, text, List.singleton_append, List.append_nil]
    rw [Text.pieces_append hr, Text.pieces_append hg, Text.pieces_of_not_mem hb]

/-- The text that a token adds. -/
theorem text_of_token {t : Token} (h : Fused t) :
    (ofToken t).flatMap text = if t.kind = .integer then t.text.toList else [','] := by
  rcases h with h | h
  · simp only [ofToken, h, text_numbers, Text.joined_pieces, if_true]
  · simp [ofToken, h, text]

end ColorPart

namespace Literal

open ColorPart (Fused ofTokens IsChannel Separated)

/-- The tokens up to the first closing parenthesis. -/
def inside (tokens : List Token) : List Token := tokens.takeWhile (·.kind ≠ .rightParen)

/-! The joined text -/

theorem color_round_apply (text : String) (t : Token) (rest : List Token) (last : Location) :
    colorRound text ⟨t :: rest, last⟩ =
      match t.kind with
      | .rightParen => (.ok (.done text), ⟨rest, t.location⟩)
      | .integer => (.ok (.again (text ++ t.text)), ⟨rest, t.location⟩)
      | .comma => (.ok (.again (text ++ ",")), ⟨rest, t.location⟩)
      | _ => (.error (.grammar t.location (.unexpectedInColor t.text)), ⟨rest, t.location⟩) := by
  cases hkind : t.kind <;> simp [colorRound, next, Attempt.bind_apply, hkind, failGrammar]

theorem color_round_close {text : String} {t : Token} {rest : List Token} {last : Location}
    {r : Round String} {c : Cursor} (h : t.kind = .rightParen) :
    colorRound text ⟨t :: rest, last⟩ = (.ok r, c) ↔ r = .done text ∧ c = ⟨rest, t.location⟩ := by
  rw [color_round_apply, h]
  simp [eq_comm]

/-- What a token adds to the text. -/
theorem color_round_fused {text : String} {t : Token} {rest : List Token} {last : Location}
    {r : Round String} {c : Cursor} (h : Fused t) :
    colorRound text ⟨t :: rest, last⟩ = (.ok r, c) ↔
      (∃ longer, r = .again longer ∧
        longer.toList = text.toList ++ (ColorPart.ofToken t).flatMap ColorPart.text) ∧
      c = ⟨rest, t.location⟩ := by
  rw [color_round_apply, ColorPart.text_of_token h]
  rcases h with h | h
  · simp only [h, if_true, ← String.toList_append, String.toList_inj]
    simp [eq_comm]
  · have hcomma : text.toList ++ [','] = (text ++ ",").toList := by rw [String.toList_append]; rfl
    simp only [h, reduceCtorEq, if_false, hcomma, String.toList_inj]
    simp [eq_comm]

theorem color_round_other {text : String} {t : Token} {rest : List Token} {last : Location}
    {r : Round String} {c : Cursor} (hclose : t.kind ≠ .rightParen) (hfused : ¬Fused t) :
    colorRound text ⟨t :: rest, last⟩ ≠ (.ok r, c) := by
  obtain ⟨hinteger, hcomma⟩ := not_or.mp hfused
  rw [color_round_apply]
  split <;> simp_all

theorem repeats_close {text result : String} {t : Token} {rest : List Token} {last : Location}
    {c : Cursor} (h : t.kind = .rightParen) :
    Repeats colorRound text ⟨t :: rest, last⟩ result c ↔
      result = text ∧ c = ⟨rest, t.location⟩ := by
  rw [repeats_iff]
  simp [color_round_close h]

theorem repeats_fused {text result : String} {t : Token} {rest : List Token} {last : Location}
    {c : Cursor} (h : Fused t) :
    Repeats colorRound text ⟨t :: rest, last⟩ result c ↔
      ∃ longer : String,
        longer.toList = text.toList ++ (ColorPart.ofToken t).flatMap ColorPart.text ∧
        Repeats colorRound longer ⟨rest, t.location⟩ result c := by
  rw [repeats_iff]
  simp [color_round_fused h, and_assoc]

theorem not_repeats_other {text result : String} {t : Token} {rest : List Token} {last : Location}
    {c : Cursor} (hclose : t.kind ≠ .rightParen) (hfused : ¬Fused t) :
    ¬Repeats colorRound text ⟨t :: rest, last⟩ result c := by
  rw [repeats_iff]
  simp [color_round_other hclose hfused]

/-- The text of a colour is that of the parts up to the closing parenthesis. -/
theorem repeats_color_round {text result : String} {tokens : List Token} {last : Location}
    {c : Cursor} :
    Repeats colorRound text ⟨tokens, last⟩ result c ↔
      ∃ close rest, tokens = inside tokens ++ close :: rest ∧ close.kind = .rightParen ∧
        (∀ t ∈ inside tokens, Fused t) ∧
        result.toList = text.toList ++ (ofTokens (inside tokens)).flatMap ColorPart.text ∧
        c = ⟨rest, close.location⟩ := by
  induction tokens generalizing text last with
  | nil =>
    constructor
    · intro h
      cases h with
      | done hround => cases hround
      | again hround _ => cases hround
    · rintro ⟨close, rest, htokens, -⟩
      simp at htokens
  | cons t rest ih =>
    by_cases hclose : t.kind = .rightParen
    · have hinside : inside (t :: rest) = [] := List.takeWhile_cons_of_neg (by simpa using hclose)
      rw [repeats_close hclose, hinside]
      constructor
      · rintro ⟨rfl, rfl⟩
        exact ⟨t, rest, rfl, hclose, by simp, by simp [ofTokens], rfl⟩
      · rintro ⟨close, behind, htokens, -, -, hresult, rfl⟩
        cases htokens
        exact ⟨by simpa [ofTokens, String.toList_inj] using hresult, rfl⟩
    · have hinside : inside (t :: rest) = t :: inside rest :=
        List.takeWhile_cons_of_pos (by simpa using hclose)
      rw [hinside, ColorPart.of_tokens_cons, List.flatMap_append, ← List.append_assoc]
      by_cases hfused : Fused t
      · simp only [repeats_fused hfused, ih, List.forall_mem_cons, hfused, true_and,
          List.cons_append, List.cons.injEq]
        constructor
        · rintro ⟨longer, hlonger, hrest⟩
          rwa [← hlonger]
        · intro h
          exact ⟨String.ofList _, String.toList_ofList, by rwa [String.toList_ofList]⟩
      · simp [not_repeats_other hclose hfused, hfused]

/-! The number -/

theorem channel_eq_some {digits : List Char} {value : Nat} :
    channel? digits = some value ↔ IsChannel digits value := by
  simp [channel?, IsChannel, Option.filter_eq_some_iff]

/-- A colour that takes in one more component. -/
def colorStep (location : Location) (color : Nat) (component : List Char) :
    Except CompileError Nat :=
  match channel? component with
  | some channel => .ok (color * 256 + channel)
  | none => .error (.meaning location (.colorComponent (String.ofList component)))

theorem color_step_eq_ok {location : Location} {color result : Nat} {component : List Char} :
    colorStep location color component = .ok result ↔
      ∃ channel, IsChannel component channel ∧ result = color * 256 + channel := by
  unfold colorStep
  cases hc : channel? component with
  | none => simp [← channel_eq_some, hc]
  | some channel => simp [← channel_eq_some, hc, eq_comm]

/-- The number of three components. -/
theorem color_number_eq_ok {location : Location} {components : List (List Char)} {number : Nat} :
    components.length = 3 ∧ colorNumber location components = .ok number ↔
      ∃ red green blue r g b, components = [red, green, blue] ∧ IsChannel red r ∧
        IsChannel green g ∧ IsChannel blue b ∧ number = r * 65536 + g * 256 + b := by
  have hfold : colorNumber location components = components.foldlM (colorStep location) 0 := rfl
  rw [hfold]
  constructor
  · rintro ⟨hlength, hnumber⟩
    obtain ⟨red, green, blue, rfl⟩ := List.length_eq_three.mp hlength
    simp only [List.foldlM_cons, List.foldlM_nil, except_bind_eq_ok, color_step_eq_ok] at hnumber
    obtain ⟨_, ⟨r, hr, rfl⟩, _, ⟨g, hg, rfl⟩, _, ⟨b, hb, rfl⟩, hnumber⟩ := hnumber
    cases hnumber
    exact ⟨red, green, blue, r, g, b, rfl, hr, hg, hb, by omega⟩
  · rintro ⟨red, green, blue, r, g, b, rfl, hr, hg, hb, rfl⟩
    refine ⟨rfl, ?_⟩
    simp only [List.foldlM_cons, List.foldlM_nil, except_bind_eq_ok, color_step_eq_ok]
    refine ⟨_, ⟨r, hr, rfl⟩, _, ⟨g, hg, rfl⟩, _, ⟨b, hb, rfl⟩, ?_⟩
    exact congrArg Except.ok (by omega)

/-- A word that starts a colour is read as one. -/
theorem value_of_rgb {head mark : Token} (hhead : head.kind = .identifier ∧ head.text = "rgb")
    (hmark : mark.kind = .leftParen) (tokens : List Token) (last : Location) :
    value ⟨head :: mark :: tokens, last⟩ = color head ⟨mark :: tokens, head.location⟩ := by
  obtain ⟨hkind, htext⟩ := hhead
  have hopens : nextIs (.ofKind .leftParen) ⟨mark :: tokens, head.location⟩ =
      (.ok true, ⟨mark :: tokens, head.location⟩) := by
    simp [nextIs, expects, Cursor.expects, Condition.allHold, Condition.holds_of_kind, hmark]
  have hword : word head ⟨mark :: tokens, head.location⟩ =
      color head ⟨mark :: tokens, head.location⟩ := by
    refine (Attempt.bind_ok hopens).trans ?_
    simp [htext]
  have hnext : next ⟨head :: mark :: tokens, last⟩ =
      (.ok head, ⟨mark :: tokens, head.location⟩) := rfl
  refine (Attempt.bind_ok hnext).trans ?_
  rw [hkind]
  exact hword

/-- A colour is read if the joined text has three pieces that are channels. -/
theorem color_eq_ok {head mark : Token} (hmark : mark.kind = .leftParen) {tokens : List Token}
    {last : Location} {v : Value} {c : Cursor} :
    color head ⟨mark :: tokens, last⟩ = (.ok v, c) ↔
      ∃ text number, Repeats colorRound "" ⟨tokens, mark.location⟩ text c ∧
        ((Text.pieces ',' text.toList).length = 3 ∧
          colorNumber head.location (Text.pieces ',' text.toList) = .ok number) ∧
        v = ⟨.color, toString number, head.location⟩ := by
  have hensure : ensureKind .leftParen ⟨mark :: tokens, last⟩ =
      (.ok mark, ⟨tokens, mark.location⟩) := by
    simp [ensureKind, ensure, Condition.holds_of_kind, hmark]
  have htext (text : String) : colorText ⟨tokens, mark.location⟩ = (.ok text, c) ↔
      Repeats colorRound "" ⟨tokens, mark.location⟩ text c :=
    repeating_eq_ok progresses_color_round
  unfold color
  rw [Attempt.bind_ok hensure, Attempt.bind_eq_ok]
  constructor
  · rintro ⟨text, c₁, hread, h⟩
    dsimp only at h
    by_cases hlength : (Text.pieces ',' text.toList).length = 3
    · rw [if_neg (not_not.mpr hlength)] at h
      obtain ⟨number, _, hlift, hv⟩ := Attempt.bind_eq_ok.mp h
      obtain ⟨hnumber, rfl⟩ := Attempt.lift_eq_ok.mp hlift
      cases hv
      exact ⟨text, number, (htext text).mp hread, ⟨hlength, hnumber⟩, rfl⟩
    · rw [if_pos hlength] at h
      cases h
  · rintro ⟨text, number, hread, ⟨hlength, hnumber⟩, rfl⟩
    refine ⟨text, c, (htext text).mpr hread, ?_⟩
    dsimp only
    rw [if_neg (not_not.mpr hlength), hnumber]
    rfl

/-- What a colour takes, where integers without a comma between them are one number: the text of
the parts up to the closing parenthesis is cut at its commas. -/
theorem value_eq_color {head mark : Token} (hhead : head.kind = .identifier ∧ head.text = "rgb")
    (hmark : mark.kind = .leftParen) {tokens : List Token} {last : Location} {v : Value}
    {c : Cursor} :
    value ⟨head :: mark :: tokens, last⟩ = (.ok v, c) ↔
      ∃ close rest red green blue r g b, tokens = inside tokens ++ close :: rest ∧
        close.kind = .rightParen ∧ (∀ t ∈ inside tokens, Fused t) ∧
        Text.pieces ',' ((ofTokens (inside tokens)).flatMap ColorPart.text) = [red, green, blue] ∧
        IsChannel red r ∧ IsChannel green g ∧ IsChannel blue b ∧
        v = ⟨.color, toString (r * 65536 + g * 256 + b), head.location⟩ ∧
        c = ⟨rest, close.location⟩ := by
  rw [value_of_rgb hhead hmark, color_eq_ok hmark]
  simp only [color_number_eq_ok, repeats_color_round]
  constructor
  · rintro ⟨text, number, ⟨close, rest, htokens, hclose, hall, htext, rfl⟩,
      ⟨red, green, blue, r, g, b, hpieces, hr, hg, hb, rfl⟩, rfl⟩
    rw [htext] at hpieces
    exact ⟨close, rest, red, green, blue, r, g, b, htokens, hclose, hall, hpieces, hr, hg, hb, rfl,
      rfl⟩
  · rintro ⟨close, rest, red, green, blue, r, g, b, htokens, hclose, hall, hpieces, hr, hg, hb, rfl,
      rfl⟩
    refine ⟨String.ofList ((ofTokens (inside tokens)).flatMap ColorPart.text), _,
      ⟨close, rest, htokens, hclose, hall, ?_, rfl⟩,
      ⟨red, green, blue, r, g, b, ?_, hr, hg, hb, rfl⟩, rfl⟩
    · rw [String.toList_ofList]
      rfl
    · rw [String.toList_ofList]
      exact hpieces

/-- Where no two numbers stand next to each other, a colour takes exactly three channels with one
comma between neighbours, and is their number. -/
theorem rgb_accepts_three_channels {head mark : Token} {tokens : List Token}
    (hhead : head.kind = .identifier ∧ head.text = "rgb") (hmark : mark.kind = .leftParen)
    (hseparated : Separated (ofTokens (inside tokens))) (last : Location) (v : Value) (c : Cursor) :
    value ⟨head :: mark :: tokens, last⟩ = (.ok v, c) ↔
      ∃ close rest red green blue r g b, tokens = inside tokens ++ close :: rest ∧
        close.kind = .rightParen ∧
        ofTokens (inside tokens) = [.number red, .comma, .number green, .comma, .number blue] ∧
        IsChannel red r ∧ IsChannel green g ∧ IsChannel blue b ∧
        v = ⟨.color, toString (r * 65536 + g * 256 + b), head.location⟩ ∧
        c = ⟨rest, close.location⟩ := by
  rw [value_eq_color hhead hmark]
  constructor
  · rintro ⟨close, rest, red, green, blue, r, g, b, htokens, hclose, hall, hpieces, hr, hg, hb,
      hv, hc⟩
    have husable := ColorPart.usable_of_tokens hall
    have hparts := (ColorPart.pieces_eq_three husable hseparated hr.ne_nil hg.ne_nil hb.ne_nil).mp
      hpieces
    exact ⟨close, rest, red, green, blue, r, g, b, htokens, hclose, hparts, hr, hg, hb, hv, hc⟩
  · rintro ⟨close, rest, red, green, blue, r, g, b, htokens, hclose, hparts, hr, hg, hb, hv, hc⟩
    have hall : ∀ t ∈ inside tokens, Fused t := ColorPart.fused_of_tokens (by simp [hparts])
    have husable := ColorPart.usable_of_tokens hall
    have hpieces := (ColorPart.pieces_eq_three husable hseparated hr.ne_nil hg.ne_nil
      hb.ne_nil).mpr hparts
    exact ⟨close, rest, red, green, blue, r, g, b, htokens, hclose, hall, hpieces, hr, hg, hb, hv,
      hc⟩

/-! Cases -/

def firstLine : Location := ⟨"main.kdl", 1⟩

/-- `rgb(255,0, 1_28)`, where the first comma was read as digit grouping. -/
def groupedColor : List Token :=
  [⟨.identifier, "rgb", firstLine⟩, ⟨.leftParen, "(", firstLine⟩, ⟨.integer, "255,0", firstLine⟩,
    ⟨.comma, ",", firstLine⟩, ⟨.integer, "1_28", firstLine⟩, ⟨.rightParen, ")", firstLine⟩]

theorem rgb_accepts_three_channels_grouped :
    Lexer.tokenize "rgb(255,0, 1_28)" "main.kdl" = .ok groupedColor ∧
      value ⟨groupedColor, .unknown⟩ =
        (.ok ⟨.color, toString (255 * 65536 + 0 * 256 + 128), firstLine⟩, ⟨[], firstLine⟩) := by
  refine ⟨by cbv, (rgb_accepts_three_channels ⟨rfl, rfl⟩ rfl ?_ _ _ _).mpr ?_⟩
  · decide +kernel
  · exact ⟨⟨.rightParen, ")", firstLine⟩, [], ['2', '5', '5'], ['0'], ['1', '_', '2', '8'], 255, 0,
      128, by decide +kernel⟩

/-- `rgb(1 2, 3, 4)`, where no comma stands between the first two numbers. -/
def unseparatedColor : List Token :=
  [⟨.identifier, "rgb", firstLine⟩, ⟨.leftParen, "(", firstLine⟩, ⟨.integer, "1", firstLine⟩,
    ⟨.integer, "2", firstLine⟩, ⟨.comma, ",", firstLine⟩, ⟨.integer, "3", firstLine⟩,
    ⟨.comma, ",", firstLine⟩, ⟨.integer, "4", firstLine⟩, ⟨.rightParen, ")", firstLine⟩]

/-- Two numbers without a comma between them are taken for one component, here 12. -/
theorem rgb_joins_neighbours :
    Lexer.tokenize "rgb(1 2, 3, 4)" "main.kdl" = .ok unseparatedColor ∧
      (∀ red green blue, ofTokens (inside (unseparatedColor.drop 2)) ≠
        [.number red, .comma, .number green, .comma, .number blue]) ∧
      value ⟨unseparatedColor, .unknown⟩ =
        (.ok ⟨.color, toString (12 * 65536 + 3 * 256 + 4), firstLine⟩, ⟨[], firstLine⟩) := by
  have hparts : ofTokens (inside (unseparatedColor.drop 2)) =
      [.number ['1'], .number ['2'], .comma, .number ['3'], .comma, .number ['4']] := by
    decide +kernel
  refine ⟨by cbv, fun red green blue => ?_, by decide +kernel⟩
  simp [hparts]

end Literal

end ResourceCompiler

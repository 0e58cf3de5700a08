import ResourceCompiler.Proofs.Source.Cutting
import ResourceCompiler.Proofs.Reading.Spelling

/-!
Tokens written out again. A space between neighbours keeps them apart, so the lexer reads back what
was written; and it gives no tokens that could not be written out.
-/

namespace ResourceCompiler

namespace Token

/-- A token as it is written. -/
def source (t : Token) : List Char := Lexer.written t.kind t.text.toList

/-- A token of which only the line is forgotten. -/
def withoutLine (t : Token) : Token := { t with location := { t.location with line := 0 } }

end Token

namespace Lexer

/-- Tokens as they are written, with one space between neighbours. -/
def render (tokens : List Token) : String :=
  String.ofList ([' '].intercalate (tokens.map Token.source))

/-- Every token has a text of its kind, and the first is no semicolon: that would start a
comment. -/
structure Renderable (tokens : List Token) : Prop where
  shaped : ∀ t ∈ tokens, IsToken t.kind t.text.toList
  first : ∀ t ∈ tokens.head?, t.kind ≠ .semicolon

/-- Tokens that follow each other without a line end between them, the first on some line. -/
def placed (file : String) : (line : Nat) → List Token → List Token
  | _, [] => []
  | line, t :: rest =>
    ⟨t.kind, t.text, ⟨file, line⟩⟩ :: placed file (line + t.text.toList.count '\n') rest

variable {file : String} {line : Nat} {used : Bool} {tokens : List Token}

theorem placed_spelling (file : String) (line : Nat) (tokens : List Token) :
    (placed file line tokens).map Token.spelling = tokens.map Token.spelling := by
  induction tokens generalizing line with
  | nil => rfl
  | cons t rest ih => simp [placed, Token.spelling, ih]

theorem placed_without_line (line : Nat) (h : ∀ t ∈ tokens, t.location.file = file) :
    (placed file line tokens).map Token.withoutLine = tokens.map Token.withoutLine := by
  induction tokens generalizing line with
  | nil => rfl
  | cons t rest ih =>
    obtain ⟨ht, hrest⟩ := List.forall_mem_cons.mp h
    rw [placed, List.map_cons, List.map_cons, ih _ hrest]
    simp [Token.withoutLine, ht]

/-! Reading what was written -/

/-- A token that ends where it should is read as it is. -/
theorem scan_token {kind : TokenKind} {text after : List Char} (h : IsToken kind text)
    (hstops : Stops after) (hused : kind = .semicolon → used = true) (file : String) (line : Nat) :
    scan file line used (written kind text ++ after) =
      (scan file (line + text.count '\n') true after).map
        (⟨kind, String.ofList text, ⟨file, line⟩⟩ :: ·) := by
  obtain ⟨⟨c, rest, hw, hvisible⟩, -⟩ := token_visible h
  obtain ⟨l, hl, -, hexact⟩ := lexeme_covers h hw after
  rw [hexact hstops] at hl
  rw [hw, List.cons_append, scan_visible hvisible, hl]
  intro hc
  apply hused
  apply kind_of_semicolon h
  rw [hw, hc]

/-- Only the first of the tokens can stand where a comment may start. -/
theorem scan_rendered (hshaped : ∀ t ∈ tokens, IsToken t.kind t.text.toList)
    (hused : used = false → ∀ t ∈ tokens.head?, t.kind ≠ .semicolon) (file : String) (line : Nat) :
    scan file line used ([' '].intercalate (tokens.map Token.source) ++ ['\n']) =
      .ok (placed file line tokens) := by
  induction tokens generalizing line used with
  | nil => simp [scan, placed]
  | cons t rest ih =>
    obtain ⟨ht, hrest⟩ := List.forall_mem_cons.mp hshaped
    have hsemicolon : t.kind = .semicolon → used = true := by
      intro hkind
      by_contra hu
      exact hused (by simpa using hu) t rfl hkind
    cases rest with
    | nil =>
      rw [List.map_cons, List.map_nil, List.intercalate_singleton, Token.source,
        scan_token ht (stops_of_not_visible not_visible_newline _) hsemicolon]
      simp [scan, placed, Except.map]
    | cons next rest =>
      have hused : true = false → ∀ t ∈ (next :: rest).head?, t.kind ≠ .semicolon := by simp
      have hbehind := ih hrest hused (line + t.text.toList.count '\n')
      rw [List.map_cons] at hbehind
      rw [List.map_cons, List.map_cons, List.intercalate_cons_cons, Token.source,
        List.append_assoc, List.append_assoc, List.singleton_append,
        scan_token ht (stops_of_not_visible not_visible_space _) hsemicolon,
        scan_space not_visible_space]
      simp [hbehind, placed, Except.map]

theorem tokenize_rendered (h : Renderable tokens) (file : String) :
    tokenize (render tokens) file = .ok (placed file 1 tokens) := by
  rw [tokenize, render, String.toList_ofList]
  exact scan_rendered h.shaped (fun _ => h.first) file 1

/-! What the lexer gives -/

/-- A gap ends on a fresh line if it starts on one, or with the end of a line. -/
theorem Gap.opens_line {before gap : List Char} (h : Gap before gap)
    (hstart : OpensLine before ∨ gap.head? = some '\n') : OpensLine (before ++ gap) := by
  induction h with
  | nil => simpa using hstart
  | @space before gap c hc _ ih =>
    rw [List.append_cons]
    apply ih
    left
    rcases eq_or_ne c '\n' with rfl | hne
    · exact opens_line_append_newline before
    · have ho : OpensLine before := by simpa [hne] using hstart
      exact (opens_line_append_blank (is_blank_of_not_visible hc hne)).mpr ho
  | @comment before comment gap _ _ _ ih =>
    rw [← List.append_assoc]
    exact ih (.inr rfl)

theorem tokens_of_shaped {before source gap rest : List Char} {parts : List Part}
    (h : Cut before source gap parts rest) : ∀ t ∈ tokensOf file before gap parts,
      IsToken t.kind t.text.toList ∧ t.location.file = file := by
  induction parts generalizing before source gap with
  | nil => simp [tokensOf]
  | cons p parts ih =>
    obtain ⟨-, following, -, hstands, hbehind⟩ := h
    intro t ht
    rcases List.mem_cons.mp ht with rfl | ht
    · simpa using hstands.token
    · exact ih hbehind t ht

/-- Nothing visible stands in front of the first token, so a semicolon would not be one. -/
theorem renderable_of_tokenize {source : String} (h : tokenize source file = .ok tokens) :
    Renderable tokens ∧ ∀ t ∈ tokens, t.location.file = file := by
  obtain ⟨gap, parts, hcut, rfl⟩ := tokenize_ok_iff.mp h
  have hshaped : ∀ t ∈ tokensOf file [] gap parts,
      IsToken t.kind t.text.toList ∧ t.location.file = file := tokens_of_shaped hcut
  refine ⟨⟨fun t ht => (hshaped t ht).1, ?_⟩, fun t ht => (hshaped t ht).2⟩
  intro t ht hkind
  cases parts with
  | nil => simp [tokensOf] at ht
  | cons p parts =>
    obtain ⟨hgap, following, -, hstands, -⟩ := hcut
    have hfresh : OpensLine ([] ++ gap) := hgap.opens_line (.inl (by simp [OpensLine]))
    obtain rfl := Option.some.inj ht
    exact hstands.no_comment hkind hfresh

/-- Every list of tokens that can be written out is read back with the same kinds and texts. The
lexer gives no others, so written out its tokens are read again as they are, up to their lines. -/
theorem tokenize_render (file : String) :
    (∀ tokens, Renderable tokens → ∃ again, tokenize (render tokens) file = .ok again ∧
      again.map Token.spelling = tokens.map Token.spelling) ∧
    ∀ source tokens, tokenize source file = .ok tokens → Renderable tokens ∧
      ∃ again, tokenize (render tokens) file = .ok again ∧
        again.map Token.withoutLine = tokens.map Token.withoutLine := by
  constructor
  · intro tokens h
    exact ⟨_, tokenize_rendered h file, placed_spelling file 1 tokens⟩
  · intro source tokens h
    obtain ⟨hrenderable, hfile⟩ := renderable_of_tokenize h
    exact ⟨hrenderable, _, tokenize_rendered hrenderable file, placed_without_line 1 hfile⟩

/-- A string over two lines, a semicolon behind it, and tokens that stand close together. -/
def scattered : List Token :=
  [⟨.string, "a\n;b", ⟨"m", 1⟩⟩, ⟨.semicolon, ";", ⟨"m", 2⟩⟩, ⟨.integer, "1_000", ⟨"m", 2⟩⟩,
    ⟨.comma, ",", ⟨"m", 2⟩⟩, ⟨.minus, "-", ⟨"m", 2⟩⟩, ⟨.percentage, "7,5", ⟨"m", 2⟩⟩,
    ⟨.resourceId, "12", ⟨"m", 2⟩⟩, ⟨.identifier, "x_1", ⟨"m", 2⟩⟩, ⟨.directive, "out", ⟨"m", 4⟩⟩]

theorem tokenize_render_scattered :
    tokenize "\"a\n;b\" ;1_000,-7,5%#12x_1\n ; c\n@out" "m" = .ok scattered ∧
      Renderable scattered ∧
      (∃ again, tokenize (render scattered) "m" = .ok again ∧
        again.map Token.spelling = scattered.map Token.spelling) ∧
      ∃ again, tokenize (render scattered) "m" = .ok again ∧
        again.map Token.withoutLine = scattered.map Token.withoutLine := by
  have hlexed : tokenize "\"a\n;b\" ;1_000,-7,5%#12x_1\n ; c\n@out" "m" = .ok scattered := by cbv
  obtain ⟨hrenderable, hagain⟩ := (tokenize_render "m").2 _ _ hlexed
  exact ⟨hlexed, hrenderable, (tokenize_render "m").1 _ hrenderable, hagain⟩

end Lexer

end ResourceCompiler

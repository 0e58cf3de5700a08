import ResourceCompiler.Text.Integer
import ResourceCompiler.Report.Error

/-!
From source text to tokens. Blanks and comments separate tokens and leave no trace but the line
numbers; there is no token for the end of a file.
-/

namespace ResourceCompiler.Lexer

/-- White space inside a line. The end of a line is not blank: it also ends a comment. -/
def isBlank (c : Char) : Bool := c == ' ' || c == '\t' || c == '\r'

/-- Identifiers are ASCII, whatever the rest of the source holds. -/
def startsIdentifier (c : Char) : Bool := c.isAlpha || c == '_'

def continuesIdentifier (c : Char) : Bool := startsIdentifier c || c.isDigit

/-- The punctuation marks. -/
def mark? : Char → Option TokenKind
  | '\x7b' => some .leftBrace
  | '\x7d' => some .rightBrace
  | '(' => some .leftParen
  | ')' => some .rightParen
  | '<' => some .leftAngle
  | '>' => some .rightAngle
  | '=' => some .equals
  | '+' => some .plus
  | '-' => some .minus
  | '*' => some .star
  | '/' => some .slash
  | ':' => some .colon
  | ',' => some .comma
  | '.' => some .dot
  | '&' => some .ampersand
  | '|' => some .pipe
  | '^' => some .caret
  | ';' => some .semicolon
  | _ => none

/-- The rest of a number and what follows it. A grouping mark belongs to the number only if a
digit stands directly behind it. -/
def splitDigits : List Char → List Char × List Char
  | [] => ([], [])
  | [c] => if c.isDigit then ([c], []) else ([], [c])
  | c :: next :: rest =>
    if c.isDigit || (Text.isGroupingMark c && next.isDigit) then
      let (digits, after) := splitDigits (next :: rest)
      (c :: digits, after)
    else ([], c :: next :: rest)

/-- A token read from the front of a text, and the text behind it. -/
structure Lexeme where
  kind : TokenKind
  text : List Char
  rest : List Char

/-- The token that starts with `c`. The longest possible one is taken. -/
def lexeme (c : Char) (rest : List Char) : Except LexicalFault Lexeme :=
  if c == '@' then
    if (rest.takeWhile continuesIdentifier).isEmpty then .error .missingDirectiveName
    else .ok ⟨.directive, rest.takeWhile continuesIdentifier,
      rest.dropWhile continuesIdentifier⟩
  else if c == '"' then
    match rest.dropWhile (· != '"') with
    | [] => .error .unterminatedString
    | _ :: after => .ok ⟨.string, rest.takeWhile (· != '"'), after⟩
  else if c == '#' then
    if (rest.takeWhile Char.isDigit).isEmpty then .error .missingResourceDigits
    else .ok ⟨.resourceId, rest.takeWhile Char.isDigit, rest.dropWhile Char.isDigit⟩
  else if c.isDigit then
    match splitDigits rest with
    | (digits, '%' :: after) => .ok ⟨.percentage, c :: digits, after⟩
    | (digits, after) => .ok ⟨.integer, c :: digits, after⟩
  else if startsIdentifier c then
    .ok ⟨.identifier, c :: rest.takeWhile continuesIdentifier,
      rest.dropWhile continuesIdentifier⟩
  else
    match mark? c with
    | some kind => .ok ⟨kind, [c], rest⟩
    | none => .error (.unrecognisedCharacter c)

theorem split_digits_length (cs : List Char) : (splitDigits cs).2.length ≤ cs.length := by
  fun_induction splitDigits cs <;> simp_all
  omega

theorem drop_while_length (p : Char → Bool) (cs : List Char) :
    (cs.dropWhile p).length ≤ cs.length :=
  (List.dropWhile_sublist p).length_le

/-- A token takes at least the character it starts with. -/
theorem lexeme_rest_length {c : Char} {rest : List Char} {l : Lexeme}
    (h : lexeme c rest = .ok l) : l.rest.length ≤ rest.length := by
  unfold lexeme at h
  split at h
  · split at h <;> simp_all
    subst h
    exact drop_while_length _ _
  split at h
  · split at h
    · simp at h
    · rename_i hd
      have := drop_while_length (· != '"') rest
      simp only [Except.ok.injEq] at h
      subst h
      simp only [hd, List.length_cons] at this
      exact Nat.le_of_succ_le this
  split at h
  · split at h <;> simp_all
    subst h
    exact drop_while_length _ _
  split at h
  · have hlen := split_digits_length rest
    split at h <;> rename_i hs <;> simp only [Except.ok.injEq] at h <;> subst h <;>
      simp only [hs, List.length_cons] at hlen ⊢ <;> omega
  split at h
  · simp only [Except.ok.injEq] at h
    subst h
    exact drop_while_length _ _
  · split at h <;> simp_all
    subst h
    exact Nat.le_refl _

/-- Reads the rest of a file. `used` says whether the current line already holds a token: a
semicolon starts a comment only where it does not. -/
def scan (file : String) (line : Nat) (used : Bool) : List Char → Except CompileError (List Token)
  | [] => .ok []
  | c :: rest =>
    if c == '\n' then scan file (line + 1) false rest
    else if isBlank c then scan file line used rest
    else if c == ';' && !used then scan file line used (rest.dropWhile (· != '\n'))
    else
      match _h : lexeme c rest with
      | .error fault => .error (.lexical ⟨file, line⟩ fault)
      | .ok l =>
        match scan file (line + l.text.count '\n') true l.rest with
        | .error e => .error e
        | .ok tokens => .ok (⟨l.kind, String.ofList l.text, ⟨file, line⟩⟩ :: tokens)
termination_by text => text.length
decreasing_by
  · exact Nat.lt_succ_self _
  · exact Nat.lt_succ_self _
  · exact Nat.lt_succ_of_le (drop_while_length _ _)
  · exact Nat.lt_succ_of_le (lexeme_rest_length _h)

/-- The tokens of a source file. Every line ends with a line end, the last one too. -/
def tokenize (source file : String) : Except CompileError (List Token) :=
  scan file 1 false (source.toList ++ ['\n'])

end ResourceCompiler.Lexer

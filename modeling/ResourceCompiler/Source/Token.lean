import ResourceCompiler.Source.Location

/-!
Tokens: the words, literals and punctuation marks of source text, and the tests that the grammar
puts to a single token.
-/

namespace ResourceCompiler

/-- What a token is. The marks are named for their characters. -/
inductive TokenKind
  | directive | identifier | string | resourceId | integer | percentage
  | leftBrace | rightBrace | leftParen | rightParen | leftAngle | rightAngle
  | equals | plus | minus | star | slash | colon | comma | dot
  | ampersand | pipe | caret | semicolon
deriving DecidableEq, Repr, Inhabited

/-- The name of a kind in messages. -/
def TokenKind.describe : TokenKind → String
  | .directive => "directive"
  | .identifier => "identifier"
  | .string => "string"
  | .resourceId => "resource id"
  | .integer => "integer"
  | .percentage => "percentage"
  | .leftBrace => "'\x7b'"
  | .rightBrace => "'\x7d'"
  | .leftParen => "'('"
  | .rightParen => "')'"
  | .leftAngle => "'<'"
  | .rightAngle => "'>'"
  | .equals => "'='"
  | .plus => "'+'"
  | .minus => "'-'"
  | .star => "'*'"
  | .slash => "'/'"
  | .colon => "':'"
  | .comma => "','"
  | .dot => "'.'"
  | .ampersand => "'&'"
  | .pipe => "'|'"
  | .caret => "'^'"
  | .semicolon => "';'"

/-- A token keeps only the meaningful part of its text: a string without its quotes, a
directive without `@`, a resource id without `#`, a percentage without `%`. -/
structure Token where
  kind : TokenKind
  text : String
  location : Location
deriving DecidableEq, Repr, Inhabited

/-- A test of one token by kind, by exact text, or by both, possibly turned round. -/
structure Condition where
  kind : Option TokenKind
  text : Option String
  negated : Bool
deriving DecidableEq, Repr

namespace Condition

def ofKind (kind : TokenKind) : Condition := ⟨some kind, none, false⟩

def ofText (text : String) : Condition := ⟨none, some text, false⟩

def exactly (kind : TokenKind) (text : String) : Condition := ⟨some kind, some text, false⟩

/-- An identifier with a fixed text. -/
def keyword (text : String) : Condition := exactly .identifier text

def negate (c : Condition) : Condition := { c with negated := !c.negated }

/-- A part that is not given holds of every token. -/
def holds (c : Condition) (t : Token) : Bool :=
  (c.kind.all (t.kind == ·) && c.text.all (t.text == ·)) != c.negated

/-- Whether the first tokens satisfy the conditions one to one. -/
def allHold : List Condition → List Token → Bool
  | [], _ => true
  | _ :: _, [] => false
  | c :: cs, t :: ts => c.holds t && allHold cs ts

/-- What the condition asks for, as an error says it. -/
def describe (c : Condition) : String :=
  (if c.negated then "anything but " else "") ++
    match c.kind, c.text with
    | some kind, some text => kind.describe ++ " '" ++ text ++ "'"
    | some kind, none => kind.describe
    | none, some text => "'" ++ text ++ "'"
    | none, none => "any token"

theorem holds_negate (c : Condition) (t : Token) : c.negate.holds t = !c.holds t := by
  cases c with
  | mk kind text negated => cases negated <;> simp [negate, holds]

theorem holds_of_kind {kind : TokenKind} {t : Token} :
    (ofKind kind).holds t = true ↔ t.kind = kind := by
  simp [holds, ofKind]

end Condition

end ResourceCompiler

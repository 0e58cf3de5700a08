import ResourceCompiler.Source.Token
import ResourceCompiler.Report.Attempt

/-!
Parsers read the unread tokens from the front. They look ahead freely, and an error leaves the
reader where it was found.
-/

namespace ResourceCompiler

/-- What is still to be read, and where the last token that was read stood. Errors at the end of
the input are reported there. -/
structure Cursor where
  unread : List Token
  last : Location
deriving DecidableEq

abbrev Parser (α : Type) : Type := Attempt Cursor α

namespace Cursor

/-- The cursor behind some tokens that were read. -/
def past (c : Cursor) (taken : List Token) (rest : List Token) : Cursor :=
  ⟨rest, (taken.getLast?.map (·.location)).getD c.last⟩

/-- Whether the next tokens satisfy the conditions one to one. -/
def expects (c : Cursor) (conditions : List Condition) : Bool :=
  Condition.allHold conditions c.unread

def endOfInput (c : Cursor) : CompileError := .grammar c.last .endOfInput

end Cursor

namespace Parser

/-- The token some places ahead. Nothing is read. -/
def peek (ahead : Nat) : Parser Token := fun c =>
  match c.unread[ahead]? with
  | some t => (.ok t, c)
  | none => (.error c.endOfInput, c)

def next : Parser Token := fun c =>
  match c.unread with
  | t :: rest => (.ok t, ⟨rest, t.location⟩)
  | [] => (.error c.endOfInput, c)

/-- Drops some tokens and reads the one behind them. -/
def read : (skipped : Nat) → Parser Token
  | 0 => next
  | skipped + 1 => do
    let _ ← next
    read skipped

def expects (conditions : List Condition) : Parser Bool := fun c => (.ok (c.expects conditions), c)

def nextIs (condition : Condition) : Parser Bool := expects [condition]

/-- Reads a token that has to satisfy a condition. Another token stays unread. -/
def ensure (condition : Condition) : Parser Token := fun c =>
  match c.unread with
  | t :: rest =>
    if condition.holds t then (.ok t, ⟨rest, t.location⟩)
    else (.error (.grammar t.location (.mismatch condition t.text)), c)
  | [] => (.error (.grammar c.last (.missing condition)), c)

/-- One token for each condition, up to the first that does not fit. -/
def ensureAll : List Condition → Parser (List Token)
  | [] => return []
  | condition :: rest => do
    let t ← ensure condition
    let ts ← ensureAll rest
    return t :: ts

def ensureKind (kind : TokenKind) : Parser Token := ensure (.ofKind kind)

/-- Reads tokens as long as they satisfy a condition. -/
def consume (condition : Condition) : Parser (List Token) := fun c =>
  let taken := c.unread.takeWhile condition.holds
  (.ok taken, c.past taken (c.unread.dropWhile condition.holds))

/-- Reads the next token if it satisfies a condition. -/
def accept (condition : Condition) : Parser (Option Token) := fun c =>
  match c.unread with
  | t :: rest => if condition.holds t then (.ok (some t), ⟨rest, t.location⟩) else (.ok none, c)
  | [] => (.ok none, c)

def acceptKind (kind : TokenKind) : Parser (Option Token) := accept (.ofKind kind)

def failGrammar {α : Type} (location : Location) (fault : GrammarFault) : Parser α :=
  Attempt.fail (.grammar location fault)

def failMeaning {α : Type} (location : Location) (fault : MeaningFault) : Parser α :=
  Attempt.fail (.meaning location fault)

/-- A value that has to be there; its lack is a fault at a place. -/
def demand {α : Type} (value : Option α) (location : Location) (fault : MeaningFault) :
    Parser α :=
  match value with
  | some a => return a
  | none => failMeaning location fault

/-- What a round of a repetition ends with. -/
inductive Round (β : Type)
  | again (state : β)
  | done (state : β)

/-- Rounds up to the one that says it is done, at most one more than the allowance has tokens. -/
def rounds {β : Type} (round : β → Parser (Round β)) : (allowance : List Token) → β → Parser β
  | [], state => do
    match ← round state with
    | .done state => return state
    | .again _ => Attempt.fail (.breakdown .endlessLoop)
  | _ :: allowance, state => do
    match ← round state with
    | .done state => return state
    | .again state => rounds round allowance state

/-- Repeats a round until it is done. Every round but the last reads a token, so the tokens that
are unread at the start bound the rounds, and no repetition of a block ever breaks down. -/
def repeating {β : Type} (round : β → Parser (Round β)) (state : β) : Parser β := fun c =>
  rounds round c.unread state c

/-- Repeats an item until the closing mark is next, and reads that. -/
def untilClosed {β : Type} (closing : TokenKind) (item : β → Parser β) (state : β) : Parser β := do
  let state ← repeating (fun state => do
    if ← nextIs (.ofKind closing) then return .done state
    else return .again (← item state)) state
  let _ ← ensureKind closing
  return state

/-- Repeats an item as long as a comma follows it, up to the closing mark, and reads that. A comma
in front of the closing mark is allowed. -/
def listUntilClosed {β : Type} (closing : TokenKind) (item : β → Parser β) (state : β) :
    Parser β := do
  let state ← repeating (fun state => do
    if ← nextIs (.ofKind closing) then return .done state
    else
      let state ← item state
      match ← acceptKind .comma with
      | some _ => return .again state
      | none => return .done state) state
  let _ ← ensureKind closing
  return state

end Parser

end ResourceCompiler

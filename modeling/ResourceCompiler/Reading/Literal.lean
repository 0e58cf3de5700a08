import ResourceCompiler.Text.Pieces
import ResourceCompiler.Text.Integer
import ResourceCompiler.Declared.Value
import ResourceCompiler.Reading.Parser

/-!
Value literals, as they stand on the right of an assignment or of `default =`.
-/

namespace ResourceCompiler.Literal

open ResourceCompiler.Parser

def kinds : List TokenKind :=
  [.string, .integer, .percentage, .resourceId, .identifier, .minus]

/-- Whether a value starts here. -/
def starts (c : Cursor) : Bool := c.unread.head?.any fun t => kinds.contains t.kind

/-- The path of `file("...")`, from the opening parenthesis on. -/
def fileReference (head : Token) : Parser Value := do
  let _ ← ensureKind .leftParen
  let path ← ensureKind .string
  let _ ← ensureKind .rightParen
  return ⟨.fileReference, path.text, head.location⟩

/-- The text between the parentheses of `rgb(...)`, which may only hold integers and commas. -/
def colorText : Parser String :=
  repeating (fun text => do
    let t ← next
    match t.kind with
    | .rightParen => return .done text
    | .integer => return .again (text ++ t.text)
    | .comma => return .again (text ++ ",")
    | _ => failGrammar t.location (.unexpectedInColor t.text)) ""

/-- A colour channel: a number up to 255 whose digits may be grouped by underscores. -/
def channel? (component : List Char) : Option Nat :=
  (Text.digitsValue? (component.filter (· ≠ '_'))).filter (· ≤ 255)

/-- The number of a colour whose channels are taken one after the other. -/
def colorNumber (location : Location) (components : List (List Char)) : Except CompileError Nat :=
  components.foldlM (fun color component =>
    match channel? component with
    | some channel => .ok (color * 256 + channel)
    | none => .error (.meaning location (.colorComponent (String.ofList component)))) 0

/-- A colour is kept as the decimal text of its number. The lexer may have read the commas between
components as digit grouping, so the components are cut from the joined text. -/
def color (head : Token) : Parser Value := do
  let _ ← ensureKind .leftParen
  let text ← colorText
  let components := Text.pieces ',' text.toList
  if components.length ≠ 3 then
    failMeaning head.location (.colorComponentCount components.length)
  let number ← Attempt.lift (colorNumber head.location components)
  return ⟨.color, toString number, head.location⟩

/-- A number behind a minus sign. A percentage becomes a plain integer there. -/
def negative (head : Token) : Parser Value := do
  let number ← match ← acceptKind .percentage with
    | some percentage => pure percentage
    | none => ensureKind .integer
  return ⟨.integer, "-" ++ number.text, head.location⟩

/-- The words `file` and `rgb` are plain identifiers unless a parenthesis follows. -/
def word (t : Token) : Parser Value := do
  let opens ← nextIs (.ofKind .leftParen)
  if t.text == "file" && opens then fileReference t
  else if t.text == "rgb" && opens then color t
  else return ⟨.identifier, t.text, t.location⟩

def value : Parser Value := do
  let t ← next
  match t.kind with
  | .string => return ⟨.string, t.text, t.location⟩
  | .integer => return ⟨.integer, t.text, t.location⟩
  | .percentage => return ⟨.percentage, t.text, t.location⟩
  | .resourceId => return ⟨.resourceId, t.text, t.location⟩
  | .minus => negative t
  | .identifier => word t
  | _ => failGrammar t.location (.notValue t.text)

end ResourceCompiler.Literal

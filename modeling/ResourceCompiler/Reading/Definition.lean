import ResourceCompiler.Reading.Literal
import ResourceCompiler.Schema.Basic

/-!
Type definitions: the block behind `@define`.

    name = "Asteroid";
    code = "roid";
    field("spin") (braces around:)
        required;
        deprecated("note");
        value(name = "v", offset = 2, size = byte, type = integer, default = slow)
            (symbols in braces);
    reference("explosion") (braces around:)
        type = "Explosion";
        valid_id_range = #128 #2175;
        id_mapping = id + 1000;
-/

namespace ResourceCompiler.Definition

open ResourceCompiler.Parser

/-- `= "text"`. -/
def textAssignment : Parser String := do
  let _ ← ensureKind .equals
  let t ← ensureKind .string
  return t.text

/-- `("name")` and an opening brace. -/
def blockHead : Parser String := do
  let _ ← ensureKind .leftParen
  let name ← ensureKind .string
  let _ ← ensureKind .rightParen
  let _ ← ensureKind .leftBrace
  return name.text

/-! Slots -/

/-- The attributes of a slot as far as they were given. -/
structure SlotAttributes where
  name : Option String
  offset : Option Nat
  length : Option Nat
  size : Option Nat
  type : Option Token
  default : Option Value

def noAttributes : SlotAttributes := ⟨none, none, none, none, none, none⟩

def byteCount : Parser Nat := do
  let t ← ensureKind .integer
  demand (Text.parseByteCount t.text) t.location (.invalidByteCount t.text)

/-- The sizes that have names. -/
def namedSize? : String → Option Nat
  | "byte" => some 1
  | "word" => some 2
  | "dword" | "long" => some 4
  | "qword" | "quad" => some 8
  | _ => none

def slotSize : Parser Nat := do
  if ← nextIs (.ofKind .identifier) then
    let t ← next
    demand (namedSize? t.text) t.location (.unknownSize t.text)
  else byteCount

/-- An attribute is given once. -/
def once {α : Type} (key : Token) (earlier : Option α) (given : α) : Parser (Option α) :=
  if earlier.isSome then failMeaning key.location (.slotAttributeGivenTwice key.text)
  else return some given

def slotAttribute (a : SlotAttributes) : Parser SlotAttributes := do
  let key ← ensureKind .identifier
  let _ ← ensureKind .equals
  match key.text with
  | "name" => return { a with name := ← once key a.name (← ensureKind .string).text }
  | "offset" => return { a with offset := ← once key a.offset (← byteCount) }
  | "length" => return { a with length := ← once key a.length (← byteCount) }
  | "size" => return { a with size := ← once key a.size (← slotSize) }
  | "type" => return { a with type := ← once key a.type (← ensureKind .identifier) }
  | "default" => return { a with default := ← once key a.default (← Literal.value) }
  | other => failGrammar key.location (.unknownSlotAttribute other)

/-- A size that the type of a slot needs. -/
def neededSize (type key : String) : Option Nat → Except MeaningFault Nat
  | some size => .ok size
  | none => .error (.missingSlotAttribute type key)

/-- The width of a slot for numbers. -/
def numberWidth (type : String) (size : Option Nat) : Except MeaningFault Nat := do
  let width ← neededSize type "size" size
  if width = 1 ∨ width = 2 ∨ width = 4 ∨ width = 8 then return width
  else throw (.unsupportedSlotSize type width)

/-- The size of a slot whose type leaves no choice. -/
def fixedSize (type : String) (expected : Nat) : Option Nat → Except MeaningFault Nat
  | some given =>
    if given ≠ expected then .error (.fixedSlotSize type expected given) else .ok expected
  | none => .ok expected

/-- Text of a fixed length, or with the length 0 of any length. -/
def cString (length : Nat) : SlotKind := .cString (if length > 0 then some length else none)

/-- The kind that a type name stands for, and the bytes that the slot takes. -/
def slotKind (type : String) (size length : Option Nat) : Except MeaningFault (SlotKind × Nat) :=
  match type with
  | "integer" => do
    let width ← numberWidth type size
    return (.integer width true, width)
  | "unsigned" | "unsigned_integer" => do
    let width ← numberWidth type size
    return (.integer width false, width)
  | "bitmask" => do
    let width ← numberWidth type size
    return (.bitmask width, width)
  | "resource_reference" => return (.resourceReference, ← fixedSize type 2 size)
  | "color" => return (.color, ← fixedSize type 4 size)
  | "string" => do
    let length ← neededSize type "length" length
    return (cString length, length)
  | "c_string" => return (cString (length.getD 0), length.getD 0)
  | "p_string" => return (.pascalString, length.getD 0)
  | other => throw (.unknownSlotType other)

/-- A fault that belongs to the source at a place. -/
def locate {α : Type} (location : Location) : Except MeaningFault α → Parser α
  | .ok a => return a
  | .error fault => failMeaning location fault

/-- A symbol's number may be written like a resource id, but then without a minus sign. -/
def symbolNumber : Parser Int64 := do
  match ← acceptKind .minus with
  | some _ =>
    let t ← ensureKind .integer
    demand ((Text.parseInteger t.text).bind fun v => Text.narrow64? (-v)) t.location
      (.symbolOutOfRange t.text)
  | none =>
    let t ← match ← acceptKind .resourceId with
      | some id => pure id
      | none => ensureKind .integer
    demand (Text.parseInt64 t.text) t.location (.symbolOutOfRange t.text)

def symbol (symbols : List Symbol) : Parser (List Symbol) := do
  let name ← ensureKind .identifier
  let _ ← ensureKind .equals
  let number ← symbolNumber
  let _ ← ensureKind .semicolon
  if symbols.any (·.name == name.text) then
    failMeaning name.location (.symbolDefinedTwice name.text)
  else return symbols ++ [⟨name.text, number⟩]

def symbols : Parser (List Symbol) := do
  let _ ← ensureKind .leftBrace
  untilClosed .rightBrace symbol []

/-- A default has a form that the slot permits, and a word among its symbols. -/
def checkDefault (slot : Slot) (value : Value) : Except MeaningFault Unit :=
  if !slot.permits value.form then
    .error (.defaultNotPermitted value.form value.text slot.kind slot.name)
  else if value.form == .identifier && (slot.symbol? value.text).isNone then
    .error (.defaultNotSymbol value.text slot.name)
  else .ok ()

/-- A slot as it is written behind the word `value`. -/
def slot (field : String) : Parser Slot := do
  let opening ← ensureKind .leftParen
  let attributes ← listUntilClosed .rightParen slotAttribute noAttributes
  let type ← demand attributes.type opening.location (.missingSlotType field)
  let offset ← demand attributes.offset opening.location (.missingSlotOffset field)
  let (kind, size) ← locate type.location (slotKind type.text attributes.size attributes.length)
  let table ← if ← nextIs (.ofKind .leftBrace) then symbols else pure []
  let slot : Slot := ⟨attributes.name.getD field, kind, offset, size, table, none⟩
  match attributes.default with
  | none => return slot
  | some value => do
    locate value.location (checkDefault slot value)
    return { slot with default := some value }

/-! Fields -/

/-- Why a field should not be used. An empty note says no more than the word itself. -/
def deprecation : Parser String := do
  match ← acceptKind .leftParen with
  | none => return "deprecated"
  | some _ =>
    let note ← ensureKind .string
    let _ ← ensureKind .rightParen
    return if note.text.isEmpty then "deprecated" else note.text

def fieldItem (f : Field) : Parser Field := do
  let item ← ensureKind .identifier
  let f ← match item.text with
    | "required" => pure { f with required := true }
    | "deprecated" => pure { f with deprecation := ← deprecation }
    | "value" => pure { f with slots := f.slots ++ [← slot f.name] }
    | other => failGrammar item.location (.unexpectedInField other f.name)
  let _ ← ensureKind .semicolon
  return f

def field : Parser Field := do
  let start ← peek 0
  let name ← blockHead
  let f ← untilClosed .rightBrace fieldItem ⟨name, false, "", []⟩
  if f.slots.isEmpty then failMeaning start.location (.missingValues f.name) else return f

/-! References -/

def mappingId (t : Token) : Parser Int64 :=
  demand (Text.parseInt64 t.text) t.location (.invalidMappingId t.text)

def operator? : TokenKind → Option IdOperator
  | .plus => some .add
  | .minus => some .subtract
  | .star => some .multiply
  | .slash => some .divide
  | _ => none

/-- Reads an operator if one is next. -/
def acceptOperator : Parser (Option IdOperator) := fun c =>
  match c.unread with
  | t :: rest =>
    match operator? t.kind with
    | some operator => (.ok (some operator), ⟨rest, t.location⟩)
    | none => (.ok none, c)
  | [] => (.ok none, c)

def operand : Parser IdOperand := do
  let t ← next
  match t.kind with
  | .identifier =>
    if t.text == "id" then return .parent else failGrammar t.location (.notMappingOperand t.text)
  | .integer | .resourceId => return .literal (← mappingId t)
  | _ => failGrammar t.location (.notMappingOperand t.text)

/-- Operands with operators between them. The first operator may be left out and is then a plus. -/
def idMapping : Parser IdMapping := do
  let first ← acceptOperator
  let (operations, _) ← repeating (fun (operations, operator) => do
    let operations := operations ++ [(operator, ← operand)]
    match ← acceptOperator with
    | some operator => return .again (operations, operator)
    | none => return .done (operations, operator)) ([], first.getD .add)
  return ⟨operations⟩

def referenceItem (r : Reference) : Parser Reference := do
  let item ← ensureKind .identifier
  let _ ← ensureKind .equals
  let r ← match item.text with
    | "type" => pure { r with targetType := (← ensureKind .string).text }
    | "valid_id_range" => do
      let first ← ensureKind .resourceId
      let last ← ensureKind .resourceId
      let low ← mappingId first
      let high ← mappingId last
      if low > high then failMeaning item.location (.emptyIdRange low high)
      else pure { r with lowestId := low, highestId := high }
    | "id_mapping" => pure { r with mapping := ← idMapping }
    | other => failGrammar item.location (.unexpectedInReference other r.field)
  let _ ← ensureKind .semicolon
  return r

/-- A reference, where `head` is the word that starts it. -/
def reference (head : Token) : Parser Reference := do
  let name ← blockHead
  let r ← untilClosed .rightBrace referenceItem (.new name)
  if r.targetType.isEmpty then failMeaning head.location (.missingTargetType r.field) else return r

/-! Types -/

def item (s : Schema) : Parser Schema := do
  let word ← ensureKind .identifier
  let s ← match word.text with
    | "name" => pure { s with name := ← textAssignment }
    | "code" => pure { s with code := ← textAssignment }
    | "field" => do
      let f ← field
      if s.fields.any (·.name == f.name) then failMeaning word.location (.fieldDefinedTwice f.name)
      else pure { s with fields := s.fields ++ [f] }
    | "reference" => do
      let r ← reference word
      if s.references.any (·.field == r.field) then
        failMeaning word.location (.referenceDefinedTwice r.field)
      else pure { s with references := s.references ++ [r] }
    | other => failGrammar word.location (.unexpectedInDefinition other)
  let _ ← ensureKind .semicolon
  return s

/-- What a type cannot do without. -/
def checkComplete (s : Schema) : Except MeaningFault Unit :=
  if s.name.isEmpty then .error .missingTypeName
  else if s.code.isEmpty then .error (.missingTypeCode s.name)
  else if s.fields.isEmpty then .error (.missingFields s.name)
  else .ok ()

/-- The block behind `@define`, which stands at `location`. -/
def schema (location : Location) : Parser Schema := do
  let _ ← ensureKind .leftBrace
  let s ← untilClosed .rightBrace item ⟨"", "", [], [], location⟩
  locate location (checkComplete s)
  return s

end ResourceCompiler.Definition

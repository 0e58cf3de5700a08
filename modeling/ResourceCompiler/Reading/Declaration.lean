import ResourceCompiler.Reading.Literal
import ResourceCompiler.Declared.Instance
import ResourceCompiler.Schema.Registry

/-!
Declarations: `declare Type` and a block of instances, each written as `new (attributes)` and a
block of assignments. An assignment whose value is itself an instance declares a nested resource,
of the type and with the id that the enclosing type's reference for that field says.
-/

namespace ResourceCompiler.Declaration

open ResourceCompiler.Parser

/-- The conditions on the first tokens of a declaration. -/
def opening : List Condition := [.keyword "declare", .ofKind .identifier, .ofKind .leftBrace]

/-- Whether a nested instance starts here. -/
def opensNested (c : Cursor) : Bool :=
  c.expects [.keyword "new", .ofKind .leftBrace] || c.expects [.keyword "new", .ofKind .leftParen]

def resourceId (t : Token) : Parser Int64 :=
  demand (Text.parseInt64 t.text) t.location (.invalidResourceId t.text)

/-- One attribute of an instance, on top of the id and name so far. -/
def identityAttribute (identity : Int64 × String) : Parser (Int64 × String) := do
  let key ← ensureKind .identifier
  let _ ← ensureKind .equals
  match key.text with
  | "id" => return (← resourceId (← ensureKind .resourceId), identity.2)
  | "name" => return (identity.1, (← ensureKind .string).text)
  | other => failGrammar key.location (.unknownInstanceAttribute other)

/-- The attributes in parentheses, which may be left out. -/
def attributes (identity : Int64 × String) : Parser (Int64 × String) := do
  match ← acceptKind .leftParen with
  | some _ => listUntilClosed .rightParen identityAttribute identity
  | none => return identity

/-- The values of an assignment, up to the semicolon. -/
def values (field : Token) : Parser (List Value) := do
  let values ← untilClosed .semicolon (fun values => do return values ++ [← Literal.value]) []
  if values.isEmpty then failGrammar field.location (.emptyAssignment field.text)
  else return values

/-- The reference behind a field that declares a nested resource, and the id that it gives. -/
def nestedReference (registry : Registry) (parent : Instance) (field : Token) :
    Except CompileError (Reference × Int64) := do
  let schema ← registry.lookup parent.typeName field.location
  match schema.reference? field.text with
  | none => throw (.meaning field.location (.notReference field.text parent.typeName))
  | some reference => do
    let _ ← registry.lookup reference.targetType field.location
    match reference.mapping.evaluate parent.id with
    | .ok id => return (reference, id)
    | .error fault => throw (.meaning field.location fault)

/-- One assignment inside an instance. `readNested` reads an instance of a type, starting from an
id and a name. -/
def assignment (registry : Registry) (readNested : String → Int64 × String → Parser InstanceTree)
    (tree : Instance × List InstanceTree) : Parser (Instance × List InstanceTree) := do
  let (root, nested) := tree
  let field ← ensureKind .identifier
  let _ ← ensureKind .equals
  if opensNested (← Attempt.get) then
    let (reference, id) ← Attempt.lift (nestedReference registry root field)
    let child ← readNested reference.targetType (id, root.name)
    if !reference.allows child.root.id then
      failMeaning field.location (.nestedIdOutsideRange reference.targetType child.root.id
        reference.lowestId reference.highestId)
    let _ ← acceptKind .semicolon
    return (root, nested ++ [child])
  else
    let values ← values field
    let root ← Attempt.lift (root.assign ⟨field.text, values, field.location⟩)
    return (root, nested)

/-- An instance of a type, starting from an id and a name that its attributes may replace.
Instances nest at most `levels` deep; each level reads a token of its own, so the unread tokens
are levels enough. -/
def instanceTree (registry : Registry) :
    (levels : Nat) → String → Int64 × String → Parser InstanceTree
  | 0, _, _ => fun c => (.error c.endOfInput, c)
  | levels + 1, typeName, identity => do
    let head ← ensure (.keyword "new")
    let (id, name) ← attributes identity
    let _ ← ensureKind .leftBrace
    let (root, nested) ← untilClosed .rightBrace
      (assignment registry (instanceTree registry levels))
      (⟨typeName, id, name, [], head.location⟩, [])
    return .node root nested

/-- The instances of a declaration, up to the closing brace. A semicolon may follow each. -/
def instances (registry : Registry) (typeName : String) : Parser (List InstanceTree) := do
  let levels := (← Attempt.get).unread.length + 1
  untilClosed .rightBrace (fun trees => do
    let tree ← instanceTree registry levels typeName (0, "")
    let _ ← acceptKind .semicolon
    return trees ++ [tree]) []

/-- The part of a declaration behind the word `declare`. -/
def body (registry : Registry) : Parser (List InstanceTree) := do
  let type ← ensureKind .identifier
  let _ ← ensureKind .leftBrace
  let _ ← Attempt.lift (registry.lookup type.text type.location)
  instances registry type.text

end ResourceCompiler.Declaration

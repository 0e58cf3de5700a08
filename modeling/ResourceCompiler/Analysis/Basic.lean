import ResourceCompiler.Source.Progress
import ResourceCompiler.Reading.Definition
import ResourceCompiler.Reading.Declaration
import ResourceCompiler.Analysis.Import

/-!
The state of an analysis and its steps. A step reads one block, a directive or a declaration, and
takes effect when the block is complete.
-/

namespace ResourceCompiler

/-- Runs a parser on the unread tokens and moves past those that it read. The parser gets these
tokens as one list. Looking ahead and reading through the segments, as `peek?` and `next` do, comes
to the same: `TokenStream.peek_eq`, `TokenStream.next_of_unread`, and what
`Proofs.Analysis.Lookahead` says of each operation. -/
def TokenStream.parse {α : Type} (p : Parser α) (s : TokenStream) :
    Except CompileError α × TokenStream :=
  let (result, c) := p ⟨s.unread, s.last⟩
  (result, s.advance (s.unread.length - c.unread.length))

structure Analysis where
  stream : TokenStream
  registry : Registry
  /-- The declared instances, nested ones in front of those that declare them. -/
  instances : Array Instance
  /-- The texts that the source prints. -/
  messages : Array String
  diagnostics : Array Diagnostic

namespace Analysis

/-- An analysis that has read nothing yet. -/
def start (tokens : List Token) : Analysis := ⟨.ofTokens tokens, .empty, #[], #[], #[]⟩

def cursor (s : Analysis) : Cursor := ⟨s.stream.unread, s.stream.last⟩

def parse {α : Type} (p : Parser α) : Attempt Analysis α := fun s =>
  let (result, stream) := s.stream.parse p
  (result, { s with stream })

/-- Puts imported tokens in front of the unread ones, unless imports lie too deep. -/
def insertTokens (tokens : List Token) : Attempt Analysis Unit := fun s =>
  if s.stream.depth < TokenStream.depthLimit then
    (.ok (), { s with stream := s.stream.splice tokens })
  else
    (.error (.meaning s.stream.last (.importsTooDeep TokenStream.depthLimit)), s)

/-- The tokens between the braces of a directive. -/
def arguments : Parser (List Token) := do
  let _ ← Parser.ensureKind .leftBrace
  let tokens ← Parser.consume (Condition.ofKind .rightBrace).negate
  let _ ← Parser.ensureKind .rightBrace
  return tokens

/-- Each argument is printed, and noted as a diagnostic. -/
def print (tokens : List Token) (s : Analysis) : Analysis :=
  { s with
    messages := tokens.foldl (fun messages t => messages.push t.text) s.messages
    diagnostics := tokens.foldl (fun ds t => ds.push (.note t.text t.location)) s.diagnostics }

def output : Attempt Analysis Unit := do
  let tokens ← parse arguments
  Attempt.modify (print tokens)

/-- The files named by the arguments are read in place of the directive. -/
def importFiles (w : Surroundings) (head : Token) : Attempt Analysis Unit := do
  let requested ← parse arguments
  if requested.isEmpty then Attempt.fail (.grammar head.location .importWithoutPaths)
  else
    let tokens ← Attempt.lift (w.readImports requested)
    insertTokens tokens

def define (head : Token) : Attempt Analysis Unit := do
  let schema ← parse (Definition.schema head.location)
  let registry ← Attempt.lift ((← Attempt.get).registry.register schema)
  Attempt.modify fun s => { s with registry }

/-- The directive that a token names. -/
def runDirective (w : Surroundings) (head : Token) : Attempt Analysis Unit :=
  if head.text = "out" then output
  else if head.text = "import" then importFiles w head
  else if head.text = "define" then define head
  else Attempt.fail (.grammar head.location (.unknownDirective head.text))

def directive (w : Surroundings) : Attempt Analysis Unit := do
  let head ← parse (Parser.ensureKind .directive)
  runDirective w head

/-- The trees of a declaration. -/
def declaration : Attempt Analysis (List InstanceTree) := do
  let _ ← parse (Parser.ensure (.keyword "declare"))
  let registry := (← Attempt.get).registry
  parse (Declaration.body registry)

def declare : Attempt Analysis Unit := do
  let trees ← declaration
  Attempt.modify fun s => { s with instances := s.instances ++ InstanceTree.flattenAll trees }

def startsDirective (s : Analysis) : Bool := s.cursor.expects [.ofKind .directive]

def startsDeclaration (s : Analysis) : Bool := s.cursor.expects Declaration.opening

/-- Reads one block. -/
def step (w : Surroundings) : Attempt Analysis Unit := fun s =>
  if s.startsDirective then directive w s
  else if s.startsDeclaration then declare s
  else match s.stream.peek? 0 with
    | some t => (.error (.grammar t.location (.unexpectedToken t.text)), s)
    | none => (.error (.grammar s.stream.last .endOfInput), s)

end Analysis

end ResourceCompiler

import ResourceCompiler.Assembly.Blob
import ResourceCompiler.Assembly.Resolver

/-!
Encoding an instance by the schema of its type. Fields are taken in the order of the schema.
Before a field is written the blob is filled with zeros up to the field's size, so slots that get
no value read as zero.
-/

namespace ResourceCompiler

/-- What assembling leaves behind beside the blobs. -/
structure Assembly where
  resolver : Resolver
  diagnostics : Array Diagnostic
  /-- The files imported for the values written so far and not yet collected. -/
  imports : List ImportedFile

namespace Assembly

/-- A fresh start: no id is taken, nothing is imported. -/
def start (diagnostics : Array Diagnostic) : Assembly := ⟨.empty, diagnostics, []⟩

def report (d : Diagnostic) : Attempt Assembly Unit :=
  .modify fun a => { a with diagnostics := a.diagnostics.push d }

def reserve (code : String) (id : Int64) : Attempt Assembly Unit :=
  .modify fun a => { a with resolver := a.resolver.reserve code id }

def resolve (disk : FileSystem) (value : Value) (desired : Int64) :
    Attempt Assembly ImportedFile := fun a =>
  let (result, resolver) := Resolver.resolve disk value.text desired value.location a.resolver
  (result, { a with resolver })

/-- Collects the files imported since the last time. -/
def takeImports : Attempt Assembly (List ImportedFile) := fun a =>
  (.ok a.imports, { a with imports := [] })

/-- A blob with a value in its slot. A file reference is stored as the id in `imported`. -/
def placeValue (blob : Buffer) (slot : Slot) (value : Value) (imported : Int64) :
    Except CompileError Buffer := do
  let written ← Blob.writeValue (blob.seek slot.offset) slot value imported
  Buffer.checkSize written.cursor
  return written

/-- Writes a value into its slot. The id of a file's resource is looked for from the id of the
instance upwards; the file counts as imported once that id is written. -/
def encodeValue (disk : FileSystem) (id : Int64) (blob : Buffer) (slot : Slot) (value : Value) :
    Attempt Assembly Buffer :=
  match value.form with
  | .fileReference => do
    let file ← resolve disk value id
    let blob ← Attempt.lift (placeValue blob slot value file.id)
    Attempt.modify fun a => { a with imports := a.imports ++ [file] }
    return blob
  | _ => Attempt.lift (placeValue blob slot value 0)

/-- The defaults of a field that is not assigned. -/
def encodeDefaults (disk : FileSystem) (id : Int64) (blob : Buffer) (slots : List Slot) :
    Attempt Assembly Buffer :=
  slots.foldlM (fun blob slot =>
    match slot.default with
    | some value => encodeValue disk id blob slot value
    | none => return blob) blob

/-- The values of an assignment, one for each slot. -/
def encodeValues (disk : FileSystem) (id : Int64) (field : String) (blob : Buffer)
    (slots : List (Slot × Value)) : Attempt Assembly Buffer :=
  slots.foldlM (fun blob (slot, value) =>
    if slot.permits value.form then encodeValue disk id blob slot value
    else Attempt.fail (.meaning value.location
      (.valueNotPermitted value.form value.text slot.kind slot.name field))) blob

/-- A deprecated field is reported where it is assigned, and else where the instance stands. -/
def reportDeprecated (schema : Schema) (field : Field) (location : Location) :
    Attempt Assembly Unit :=
  if field.isDeprecated then
    report (.warning .deprecatedField
      ("field '" ++ field.name ++ "' of " ++ schema.name ++ " is deprecated: " ++
        field.deprecation) location)
  else return ()

/-- Makes room for a field. -/
def makeRoom (field : Field) (blob : Buffer) : Except CompileError Buffer := do
  let required ← field.checkedSize
  if blob.size < required then
    Buffer.checkSize required
    return blob.seekEnd.padTo required
  else return blob

def encodeField (disk : FileSystem) (schema : Schema) (i : Instance) (blob : Buffer)
    (field : Field) : Attempt Assembly Buffer := do
  let blob ← Attempt.lift (makeRoom field blob)
  match i.assignment? field.name with
  | none => do
    reportDeprecated schema field i.location
    if field.required then
      Attempt.fail (.meaning i.location (.missingRequiredField schema.name i.id field.name))
    else encodeDefaults disk i.id blob field.slots
  | some assignment => do
    reportDeprecated schema field assignment.location
    if assignment.values.length ≠ field.slots.length then
      Attempt.fail (.meaning assignment.location
        (.valueCount field.name field.slots.length assignment.values.length))
    else encodeValues disk i.id field.name blob (field.slots.zip assignment.values)

/-- The blob of an instance. Assignments to fields that the type does not have are reported
before anything is written. -/
def encode (disk : FileSystem) (schema : Schema) (i : Instance) : Attempt Assembly ByteArray :=
  match i.assignments.find? fun a => (schema.field? a.field).isNone with
  | some unknown =>
    Attempt.fail (.meaning unknown.location (.unknownField schema.name unknown.field))
  | none => do
    let blob ← schema.fields.foldlM (encodeField disk schema i) (Buffer.empty .big)
    return blob.bytes

end Assembly

end ResourceCompiler

import ResourceCompiler.Assembly.Basic
import ResourceCompiler.Container.Basic
import ResourceCompiler.Schema.Registry

/-!
All declared instances become one container. Every id that a declared instance uses is reserved
before the first file is imported, so an import never takes the id of an instance that comes later.
-/

namespace ResourceCompiler.Target

/-- The type of each instance, with its id reserved. -/
def reserveAll (registry : Registry) (instances : List Instance) :
    Attempt Assembly (List (Instance × Schema)) :=
  instances.mapM fun i => do
    let schema ← Attempt.lift (registry.lookup i.typeName i.location)
    Assembly.reserve schema.code i.id
    return (i, schema)

def duplicateWarning (i : Instance) (schema : Schema) : Diagnostic :=
  .warning .duplicateResource
    ("duplicate resource id #" ++ toString i.id ++ " for type '" ++ schema.name ++ "'") i.location

/-- What encoding the instances one by one has given so far. -/
structure Progress where
  container : Container
  /-- One warning for each instance whose id its type already had. -/
  duplicates : List Diagnostic

def addImport (c : Container) (file : ImportedFile) : Container :=
  c.add file.typeCode ⟨file.id, file.name, file.data⟩

/-- Encodes an instance and puts it into the container, the files it imports behind it. -/
def addInstance (disk : FileSystem) (p : Progress) (i : Instance) (schema : Schema) :
    Attempt Assembly Progress := do
  let blob ← Assembly.encode disk schema i
  let duplicates :=
    if p.container.contains schema.code i.id then p.duplicates ++ [duplicateWarning i schema]
    else p.duplicates
  let imports ← Assembly.takeImports
  return ⟨imports.foldl addImport (p.container.add schema.code ⟨i.id, i.name, blob⟩), duplicates⟩

/-- The container of all instances. Duplicates are reported when everything is encoded. -/
def assemble (disk : FileSystem) (registry : Registry) (instances : List Instance) :
    Attempt Assembly Container := do
  let typed ← reserveAll registry instances
  let progress ← typed.foldlM (fun p (i, schema) => addInstance disk p i schema) ⟨.empty, []⟩
  progress.duplicates.forM Assembly.report
  return progress.container

end ResourceCompiler.Target

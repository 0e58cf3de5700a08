import Std.Data.TreeMap
import Std.Data.TreeSet
import ResourceCompiler.Disk.FileSystem
import ResourceCompiler.Report.Attempt

/-!
Files that values refer to become resources of their own. Their type code follows from the file
name, and their id is the first free one from a desired id upwards.
-/

namespace ResourceCompiler

/-- A file turned into a resource. -/
structure ImportedFile where
  id : Int64
  typeCode : String
  name : String
  data : ByteArray

/-- The type code for a file extension: a known one, or the first four letters in capitals. -/
def typeCodeOfExtension (extension : String) : String :=
  match extension.toList.map Char.toLower with
  | ['p', 'n', 'g'] => "PNG "
  | ['p', 'i', 'c', 't'] | ['p', 'c', 't'] => "PICT"
  | ['w', 'a', 'v'] | ['s', 'n', 'd'] => "snd "
  | ['t', 'x', 't'] => "TEXT"
  | letters =>
    let kept := (letters.map Char.toUpper).take 4
    String.ofList (kept ++ List.replicate (4 - kept.length) ' ')

/-- The type code that a file name implies. -/
def typeCodeOfPath (p : Path) : String := typeCodeOfExtension (p.extension?.getD "")

/-- The ids in use, by type code. -/
structure Resolver where
  taken : Std.TreeMap String (Std.TreeSet Int64)

namespace Resolver

def empty : Resolver := ⟨∅⟩

def takenIds (r : Resolver) (code : String) : Std.TreeSet Int64 := (r.taken[code]?).getD ∅

/-- Marks an id as used by a declared resource. -/
def reserve (r : Resolver) (code : String) (id : Int64) : Resolver :=
  ⟨r.taken.insert code ((r.takenIds code).insert id)⟩

/-- The first id from `id` upwards that is not taken. With `taken` ids in the way, one more than
that many steps reach a free one. -/
def firstFree (taken : Std.TreeSet Int64) : (steps : Nat) → Int64 → Int64
  | 0, id => id
  | steps + 1, id => if taken.contains id then firstFree taken steps (id + 1) else id

/-- The id for a new resource of a type. -/
def freeId (r : Resolver) (code : String) (desired : Int64) : Int64 :=
  firstFree (r.takenIds code) (r.takenIds code).size desired

/-- Where a path written in a source file leads: from the directory of that file. -/
def pathFrom (location : Location) (written : String) : Path :=
  (Path.mk location.file).directory.join ⟨written⟩

/-- Imports the file that a source mentions. Nothing is taken if it cannot be read. -/
def resolve (disk : FileSystem) (written : String) (desired : Int64) (location : Location) :
    Attempt Resolver ImportedFile := fun r =>
  let path := pathFrom location written
  match disk.readBytes path with
  | .error failure => (.error (.disk path failure), r)
  | .ok data =>
    let code := typeCodeOfPath path
    let id := r.freeId code desired
    (.ok ⟨id, code, path.stem?.getD "", data⟩, r.reserve code id)

end Resolver

end ResourceCompiler

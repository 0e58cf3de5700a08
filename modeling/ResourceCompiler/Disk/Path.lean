import ResourceCompiler.Text.Pieces

/-!
File paths as text. A path is never normalised: what a user wrote is what every message shows.
Only reading a path takes it apart, and then doubled slashes and dots between slashes do not count.
-/

namespace ResourceCompiler

structure Path where
  text : String
deriving DecidableEq, Repr, Inhabited

/-- What a part of a path says. Where paths are compared, the root comes first and names last. -/
inductive PathStep
  | root | here | up | name (text : String)
deriving DecidableEq, Ord

namespace Path

def isAbsolute (p : Path) : Bool := p.text.toList.head? == some '/'

/-- The parts between slashes, empty ones and dots included. -/
def parts (p : Path) : List String := (Text.pieces '/' p.text.toList).map String.ofList

/-- A part that names nothing: it stands between doubled slashes or is a single dot. -/
def isBlank (part : List Char) : Bool := part.isEmpty || part == ['.']

/-- The part of a path that is kept whatever is cut from its end: the root slash, or the dot
that a relative path starts with. Then the text behind it. -/
def splitLead (text : List Char) : List Char × List Char :=
  match text with
  | '/' :: rest => (['/'], rest)
  | ['.'] => (['.'], [])
  | '.' :: '/' :: rest => (['.'], '/' :: rest)
  | _ => ([], text)

/-- Without the blank parts at the end. -/
def trimBlank (parts : List (List Char)) : List (List Char) :=
  (parts.reverse.dropWhile isBlank).reverse

/-- The parts behind the lead up to the last that counts. -/
def bodyParts (text : List Char) : List (List Char) :=
  trimBlank (Text.pieces '/' (splitLead text).2)

/-- The directory that the last part stands in. Neither the empty path nor the root has one; a
single name stands in the empty path. -/
def parent? (p : Path) : Option Path :=
  let lead := (splitLead p.text.toList).1
  match bodyParts p.text.toList with
  | [] => if lead == ['.'] then some ⟨""⟩ else none
  | parts =>
    some ⟨String.ofList (lead ++ Text.joined '/' (trimBlank parts.dropLast))⟩

/-- The directory of a file, the empty path where there is none. -/
def directory (p : Path) : Path := p.parent?.getD ⟨""⟩

/-- A path read from inside a directory. An absolute path stands for itself. -/
def join (directory requested : Path) : Path :=
  if requested.isAbsolute then requested
  else
    let base := directory.text.toList
    if base.isEmpty || base.getLast? == some '/' then ⟨directory.text ++ requested.text⟩
    else ⟨directory.text ++ "/" ++ requested.text⟩

/-- The last part, unless it leads upwards or there is none. -/
def fileName? (p : Path) : Option (List Char) :=
  match (bodyParts p.text.toList).getLast? with
  | some name => if name == ['.', '.'] then none else some name
  | none => none

/-- A name cut at its last dot. A dot that starts the name does not cut it, so the stem is never
empty. -/
def splitName (name : List Char) : List Char × Option (List Char) :=
  let extension := (name.reverse.takeWhile (· ≠ '.')).reverse
  let stem := (name.take (name.length - extension.length)).dropLast
  if stem.isEmpty then (name, none) else (stem, some extension)

/-- The file name up to its last dot. -/
def stem? (p : Path) : Option String :=
  p.fileName?.map fun name => String.ofList (splitName name).1

/-- The parts that count. -/
def steps (p : Path) : List PathStep :=
  let (lead, body) := splitLead p.text.toList
  let first := if lead == ['/'] then [.root] else if lead == ['.'] then [.here] else []
  first ++ ((Text.pieces '/' body).filter fun part => !isBlank part).map fun part =>
    if part == ['.', '.'] then .up else .name (String.ofList part)

/-- Paths are put in order part by part. -/
def precedes (p q : Path) : Bool := (compare p.steps q.steps).isLE

/-- What stands behind the last dot of the file name. -/
def extension? (p : Path) : Option String :=
  (p.fileName?.bind fun name => (splitName name).2).map String.ofList

end Path

end ResourceCompiler

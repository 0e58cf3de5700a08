import ResourceCompiler.Disk.Path
import ResourceCompiler.Disk.Failure

/-!
The disk as a value. A place is the list of names that leads to it from the root; paths are walked
from the working directory, one part at a time, and every part but the last must be a directory.
-/

namespace ResourceCompiler

inductive DiskEntry
  | file (contents : ByteArray)
  | directory

namespace DiskEntry

/-- Whether two entries hold the same. -/
def same : DiskEntry → DiskEntry → Bool
  | .file contents, .file others => contents.data == others.data
  | .directory, .directory => true
  | _, _ => false

end DiskEntry

structure FileSystem where
  entries : List (List String × DiskEntry)
  workingDirectory : List String

namespace FileSystem

/-- The root is always there. -/
def entry? (fs : FileSystem) (place : List String) : Option DiskEntry :=
  if place.isEmpty then some .directory else fs.entries.lookup place

/-- Puts an entry at a place, over what stood there. -/
def put (fs : FileSystem) (place : List String) (entry : DiskEntry) : FileSystem :=
  { fs with entries := (place, entry) :: fs.entries.filter (·.1 ≠ place) }

/-- A disk that holds the working directory and nothing else. -/
def fresh (workingDirectory : List String) : FileSystem :=
  (List.range workingDirectory.length).foldl
    (fun fs n => fs.put (workingDirectory.take (n + 1)) .directory) ⟨[], workingDirectory⟩

/-- The most bytes that a path and one part of it may have. -/
def pathLimit : Nat := 4095
def partLimit : Nat := 255

/-- What is wrong with a path before anything is looked up. -/
def refusal? (p : Path) : Option DiskFailure :=
  if p.text.contains '\x00' then some .nulInName
  else if p.text.isEmpty then some .notFound
  else if pathLimit < p.text.utf8ByteSize then some .nameTooLong
  else none

/-- One part of a path, taken at a place. Even a blank part asks for a directory. -/
def step (fs : FileSystem) (place : List String) (part : String) :
    Except DiskFailure (List String) :=
  match fs.entry? place with
  | none => .error .notFound
  | some (.file _) => .error .notDirectory
  | some .directory =>
    if part == "" || part == "." then .ok place
    else if part == ".." then .ok place.dropLast
    else if partLimit < part.utf8ByteSize then .error .nameTooLong
    else if (fs.entry? (place ++ [part])).isSome then .ok (place ++ [part])
    else .error .notFound

def walk (fs : FileSystem) (place : List String) (parts : List String) :
    Except DiskFailure (List String) :=
  parts.foldlM fs.step place

/-- Where the walk along a path starts. -/
def start (fs : FileSystem) (p : Path) : List String :=
  if p.isAbsolute then [] else fs.workingDirectory

/-- The place that a path names, if something stands there. -/
def locate (fs : FileSystem) (p : Path) : Except DiskFailure (List String) :=
  match refusal? p with
  | some failure => .error failure
  | none => fs.walk (fs.start p) p.parts

/-- What a path names. -/
def lookup (fs : FileSystem) (p : Path) : Except DiskFailure DiskEntry :=
  match fs.locate p with
  | .error failure => .error failure
  | .ok place =>
    match fs.entry? place with
    | some entry => .ok entry
    | none => .error .notFound

def isFile (fs : FileSystem) (p : Path) : Bool :=
  match fs.lookup p with
  | .ok (.file _) => true
  | _ => false

def isDirectory (fs : FileSystem) (p : Path) : Bool :=
  match fs.lookup p with
  | .ok .directory => true
  | _ => false

def readBytes (fs : FileSystem) (p : Path) : Except DiskFailure ByteArray :=
  match fs.lookup p with
  | .error failure => .error failure
  | .ok .directory => .error .isDirectory
  | .ok (.file contents) => .ok contents

def readText (fs : FileSystem) (p : Path) : Except DiskFailure String :=
  match fs.readBytes p with
  | .error failure => .error failure
  | .ok contents =>
    match String.fromUTF8? contents with
    | some text => .ok text
    | none => .error .notUtf8

/-- Where an entry named by a path would stand: the directory it is in, and its name, which is
absent for the root. The directory has to be there and the entry has not. -/
def placeFor (fs : FileSystem) (p : Path) : Except DiskFailure (List String × Option String) :=
  match refusal? p with
  | some failure => .error failure
  | none =>
    match p.parts.reverse.dropWhile (· == "") with
    | [] => .ok ([], none)
    | name :: before =>
      match fs.walk (fs.start p) before.reverse with
      | .error failure => .error failure
      | .ok place =>
        match fs.entry? place with
        | some .directory =>
          if name == "." || name == ".." then .ok (place, none)
          else if partLimit < name.utf8ByteSize then .error .nameTooLong
          else .ok (place, some name)
        | some (.file _) => .error .notDirectory
        | none => .error .notFound

/-- Writes a whole file, over an earlier one. A path that ends with a slash names a directory. -/
def writeFile (fs : FileSystem) (p : Path) (contents : ByteArray) :
    Except DiskFailure FileSystem :=
  match fs.placeFor p with
  | .error failure => .error failure
  | .ok (_, none) => .error .isDirectory
  | .ok (place, some name) =>
    if p.parts.getLast? == some "" then .error .isDirectory
    else match fs.entry? (place ++ [name]) with
      | some .directory => .error .isDirectory
      | _ => .ok (fs.put (place ++ [name]) (.file contents))

def createDirectory (fs : FileSystem) (p : Path) : Except DiskFailure FileSystem :=
  match fs.placeFor p with
  | .error failure => .error failure
  | .ok (_, none) => .error .alreadyExists
  | .ok (place, some name) =>
    if (fs.entry? (place ++ [name])).isSome then .error .alreadyExists
    else .ok (fs.put (place ++ [name]) .directory)

/-- Creates a directory where there is none yet. -/
def ensureDirectory (fs : FileSystem) (p : Path) : Except DiskFailure Unit × FileSystem :=
  match fs.createDirectory p with
  | .ok created => (.ok (), created)
  | .error failure => if fs.isDirectory p then (.ok (), fs) else (.error failure, fs)

/-- Creates a directory and first, where they are missing, those above it. What was created
before a failure stays. A path has fewer levels above it than parts. -/
def createDirectories : (levels : Nat) → FileSystem → Path → Except DiskFailure Unit × FileSystem
  | 0, fs, _ => (.ok (), fs)
  | levels + 1, fs, p =>
    if p.text.isEmpty then (.ok (), fs)
    else
      match fs.ensureDirectory p with
      | (.error .notFound, fs) =>
        match createDirectories levels fs p.directory with
        | (.ok (), fs) => fs.ensureDirectory p
        | (.error failure, fs) => (.error failure, fs)
      | result => result

/-- Makes sure that a directory is there, with all that it stands in. -/
def provideDirectory (fs : FileSystem) (p : Path) : Except DiskFailure Unit × FileSystem :=
  createDirectories (p.parts.length + 1) fs p

end FileSystem

end ResourceCompiler

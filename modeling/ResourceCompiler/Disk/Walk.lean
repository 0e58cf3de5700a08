import ResourceCompiler.Disk.FileSystem

/-!
Walks through a directory. Nothing is said about who walks or in which order: a walk comes by some
paths and perhaps by failures, and no more is taken from it.
-/

namespace ResourceCompiler

/-- What a walk failed at, and where, if that is known. -/
structure WalkFailure where
  path : Option Path
  failure : DiskFailure
deriving DecidableEq, Repr

/-- A way to walk through a directory of a disk. It tells what it comes by, one after the other. -/
def DirectoryWalk : Type := FileSystem → Path → List (Except WalkFailure Path)

namespace FileSystem

/-- The names that lead from a directory to itself and to all that is below it. A directory comes
in front of what is in it, and its entries follow in the order of their names. -/
def namesBelow (fs : FileSystem) (place : List String) : List (List String) :=
  let below := fs.entries.filterMap fun (other, _) =>
    if place.isPrefixOf other && other != place then some (other.drop place.length) else none
  [] :: below.mergeSort fun a b => !decide (b < a)

end FileSystem

namespace DirectoryWalk

/-- The walk over a disk that lies open as a whole. It fails only where it cannot start. -/
def overEntries : DirectoryWalk := fun disk directory =>
  match disk.locate directory with
  | .ok place =>
    (disk.namesBelow place).map fun names =>
      .ok (names.foldl (fun path name => path.join ⟨name⟩) directory)
  | .error failure => [.error ⟨some directory, failure⟩]

end DirectoryWalk

end ResourceCompiler

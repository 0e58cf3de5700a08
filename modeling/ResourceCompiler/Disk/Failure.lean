/-!
The ways in which the disk refuses a request.
-/

namespace ResourceCompiler

inductive DiskFailure
  | notFound | permissionDenied | alreadyExists | notDirectory | isDirectory | nameTooLong
  | nulInName | notUtf8
deriving DecidableEq, Repr, Inhabited

/-- The text that the disk gives with a refusal. -/
def DiskFailure.describe : DiskFailure → String
  | .notFound => "No such file or directory (os error 2)"
  | .permissionDenied => "Permission denied (os error 13)"
  | .alreadyExists => "File exists (os error 17)"
  | .notDirectory => "Not a directory (os error 20)"
  | .isDirectory => "Is a directory (os error 21)"
  | .nameTooLong => "File name too long (os error 36)"
  | .nulInName => "file name contained an unexpected NUL byte"
  | .notUtf8 => "stream did not contain valid UTF-8"

end ResourceCompiler

/-!
What the system answers when it refuses a file or a child, and how such a refusal reads.
-/

namespace SoloRun

inductive OsError where
  | noEntry
  | argumentsTooLong
  | permissionDenied
  | exists
  | notDirectory
  | isDirectory
  | noSpace
  | nameTooLong
  | linkLoop
  deriving DecidableEq, Repr

namespace OsError

def code : OsError → Nat
  | .noEntry => 2
  | .argumentsTooLong => 7
  | .permissionDenied => 13
  | .exists => 17
  | .notDirectory => 20
  | .isDirectory => 21
  | .noSpace => 28
  | .nameTooLong => 36
  | .linkLoop => 40

def text : OsError → String
  | .noEntry => "No such file or directory"
  | .argumentsTooLong => "Argument list too long"
  | .permissionDenied => "Permission denied"
  | .exists => "File exists"
  | .notDirectory => "Not a directory"
  | .isDirectory => "Is a directory"
  | .noSpace => "No space left on device"
  | .nameTooLong => "File name too long"
  | .linkLoop => "Too many levels of symbolic links"

def message (error : OsError) : String :=
  error.text ++ " (os error " ++ toString error.code ++ ")"

end OsError
end SoloRun

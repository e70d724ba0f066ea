/-!
# Failures of disk operations

Each cause of failure has one message.  It ends with the number that the operating system gives to
the cause, if the operating system knows the cause.
-/

namespace Stencil.Disk

/-- Why an operation on a disk fails. -/
inductive Fault where
  | notFound
  | alreadyExists
  | notADirectory
  | isADirectory
  | nameTooLong
  | tooManyLinks
  | nulCharacter
  | notText
deriving DecidableEq, Repr

/-- The wording of a cause. -/
def Fault.message : Fault → String
  | notFound => "No such file or directory (os error 2)"
  | alreadyExists => "File exists (os error 17)"
  | notADirectory => "Not a directory (os error 20)"
  | isADirectory => "Is a directory (os error 21)"
  | nameTooLong => "File name too long (os error 36)"
  | tooManyLinks => "Too many levels of symbolic links (os error 40)"
  | nulCharacter => "file name contained an unexpected NUL byte"
  | notText => "stream did not contain valid UTF-8"

end Stencil.Disk

/-!
# Faults of files

Why something cannot be done to a file, in the words of the operating system where it has them.
-/

namespace FailureTriage

/-- Why a file operation fails. -/
inductive FileFault where
  | notFound
  | alreadyExists
  | notDirectory
  | isDirectory
  | nameTooLong
  /-- Too many links are to be followed. -/
  | tooManyLinks
  /-- The path has a character that no name can have. -/
  | invalidName
  /-- The bytes of the file are no text. -/
  | notText
  /-- Anything else, in its own words. -/
  | other (text : String)
  deriving DecidableEq, Repr

/-- The words for a fault. -/
def FileFault.message : FileFault → String
  | .notFound => "No such file or directory (os error 2)"
  | .alreadyExists => "File exists (os error 17)"
  | .notDirectory => "Not a directory (os error 20)"
  | .isDirectory => "Is a directory (os error 21)"
  | .nameTooLong => "File name too long (os error 36)"
  | .tooManyLinks => "Too many levels of symbolic links (os error 40)"
  | .invalidName => "file name contained an unexpected NUL byte"
  | .notText => "stream did not contain valid UTF-8"
  | .other text => text

end FailureTriage

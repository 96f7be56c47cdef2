/-!
# Failures to read a file

The reasons why a file gives no text, with the wording of the operating system.
-/

namespace PredictiveFrontend

/-- Why a file could not be read as text. -/
inductive ReadFailure where
  /-- Nothing has that path. -/
  | notFound
  /-- A component of the path that is not the last one is a plain file. -/
  | notADirectory
  /-- The path names a directory. -/
  | isADirectory
  /-- A component of the path is too long. -/
  | nameTooLong
  /-- The bytes of the file are not the encoding of a text. -/
  | notText
  /-- Any other reason, with its text. -/
  | other (text : String)
  deriving DecidableEq, Repr

namespace ReadFailure

/-- The text of a failure. -/
def message : ReadFailure → String
  | .notFound => "No such file or directory (os error 2)"
  | .notADirectory => "Not a directory (os error 20)"
  | .isADirectory => "Is a directory (os error 21)"
  | .nameTooLong => "File name too long (os error 36)"
  | .notText => "stream did not contain valid UTF-8"
  | .other text => text

end ReadFailure

end PredictiveFrontend

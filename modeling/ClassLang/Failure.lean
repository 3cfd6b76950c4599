import ClassLang.Error
import ClassLang.Error.Internal

/-!
# Failures

Everything that can end a run without output, as it is told to the user.
-/

namespace ClassLang

/-- Why a file could not be read or written. -/
inductive FileError
  | notFound
  | isDirectory
  | notDirectory
  | nameTooLong
  /-- A path holds the character that ends texts in the system. -/
  | zeroByte
  /-- The bytes of the file are no text. -/
  | notText
  /-- A cause in the words of the system. -/
  | described (text : String)
  deriving DecidableEq, Repr, Inhabited

/-- The wording. -/
def FileError.message : FileError → String
  | .notFound => "No such file or directory (os error 2)"
  | .isDirectory => "Is a directory (os error 21)"
  | .notDirectory => "Not a directory (os error 20)"
  | .nameTooLong => "File name too long (os error 36)"
  | .zeroByte => "file name contained an unexpected NUL byte"
  | .notText => "stream did not contain valid UTF-8"
  | .described text => text

/-- Any failure of a run. -/
inductive Failure
  | lexical (error : LexError)
  | grammar (error : SyntaxError)
  | semantic (error : SemanticError)
  | internal (error : InternalError)
  | file (path : String) (error : FileError)
  deriving DecidableEq, Repr, Inhabited

/-- The wording. -/
def Failure.message : Failure → String
  | .lexical error => error.message
  | .grammar error => error.text
  | .semantic error => error.message
  | .internal error => error.report
  | .file path error => path ++ ": " ++ error.message

end ClassLang

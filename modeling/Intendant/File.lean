/-! # Files

What a file operation can fail with. -/

namespace Intendant

/-- Why a file could not be read or written. -/
inductive FileError where
  | missing
  | notText
  | other (message : String)
deriving DecidableEq, Repr

/-- The text an error is shown as. -/
def FileError.message : FileError → String
  | missing => "No such file or directory (os error 2)"
  | notText => "stream did not contain valid UTF-8"
  | other message => message

/-- A written file: its text and its permission bits. -/
structure StoredFile where
  text : String
  mode : Nat
deriving DecidableEq, Repr

/-- Writes a text to a file that only its owner may read or write, whatever the file held before. -/
def StoredFile.private? (directoryExists : Bool) (text : String) : Except FileError StoredFile :=
  if directoryExists then .ok ⟨text, 0o600⟩ else .error .missing

end Intendant

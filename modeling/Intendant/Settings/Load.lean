import Intendant.File
import Intendant.Settings.Basic
import Intendant.Toml.Reader

/-! # Loading settings

Settings are read from a TOML file, or from a JSON file if its extension says so, and have to keep their
bounds. -/

namespace Intendant

/-- The formats of settings. -/
inductive SettingsFormat where
  | toml
  | json
deriving DecidableEq, Repr

/-- Why settings could not be loaded. -/
inductive SettingsError where
  | unreadable (cause : FileError)
  | malformed (format : SettingsFormat)
  | outOfRange (field value allowed : String)
deriving DecidableEq, Repr

/-- The text of an error. A malformed document is not described further. -/
def SettingsError.message : SettingsError → String
  | unreadable cause => "Unable to read config file: " ++ cause.message
  | malformed .toml => "Unable to parse TOML config"
  | malformed .json => "Unable to parse JSON config"
  | outOfRange field value allowed => "Invalid value for " ++ field ++ ": " ++ value ++ " (allowed " ++ allowed ++ ")"

namespace SettingsFormat

/-- The name of a file without its directories. -/
def fileName (path : List Char) : List Char := (path.reverse.takeWhile (· ≠ '/')).reverse

/-- What stands behind the last point of a file name, unless the point is its first character. -/
def extension? (name : List Char) : Option (List Char) :=
  let behind := (name.reverse.takeWhile (· ≠ '.')).reverse
  if name.length ≤ behind.length + 1 then none else some behind

/-- The format a file has by its extension, TOML for all but one. -/
def ofPath (path : String) : SettingsFormat :=
  if extension? (fileName path.toList) = some "json".toList then json else toml

end SettingsFormat

namespace Settings

/-- The settings if they are within all bounds, and otherwise the first bound they violate. -/
def validate? (processors : Nat) (s : Settings) : Except SettingsError Settings :=
  match s.violation? processors with
  | some b => .error (.outOfRange b.field b.shown b.allowed)
  | none => .ok s

/-- The settings of a text. In TOML an array that is longer than the record it stands for is cut. -/
def ofText? [Json.Reading] (format : SettingsFormat) (text : String) : Option Settings :=
  match format with
  | .toml => (Toml.parse? text).bind (ofJson? Wire.Fields.leading?)
  | .json => (Json.parse? text).bind (ofJson? Wire.Fields.of?)

/-- The settings a file holds, or why it holds none. -/
def load? [Json.Reading] (processors : Nat) (path : String) (contents : Except FileError ByteArray) : Except SettingsError Settings :=
  match contents with
  | .error e => .error (.unreadable e)
  | .ok bytes =>
    match String.fromUTF8? bytes with
    | none => .error (.unreadable .notText)
    | some text =>
      let format := SettingsFormat.ofPath path
      match ofText? format text with
      | none => .error (.malformed format)
      | some s => s.validate? processors

end Settings
end Intendant

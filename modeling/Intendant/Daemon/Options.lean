/-! # The command line of the daemon

An option is given once, with its value in the next word or behind an equals sign. The environment gives the
options about which the command line is silent. `CommandLine.of` says what is asked for. -/

namespace Intendant

/-- What the daemon is told to do differently. -/
structure DaemonOptions where
  config : Option String := none
  logFilter : Option String := none
  registryHost : Option String := none
  registryPort : Option Nat := none
deriving DecidableEq, Repr

/-- What a command line asks for. -/
inductive CommandLine where
  | serve (options : DaemonOptions)
  | help
  | version
  /-- A word that cannot be understood where it stands. -/
  | misused (word : String)
deriving DecidableEq, Repr

/-- The kinds of words. -/
inductive CommandWord where
  | long (name : String) (value : Option String)
  | short (letters : List Char)
  /-- The mark behind which there are no options. -/
  | mark
  | plain

/-- What a word of the command line is by its leading dashes. -/
def CommandWord.of (word : String) : CommandWord :=
  match word.toList with
  | ['-', '-'] => .mark
  | '-' :: '-' :: rest =>
    let name := rest.takeWhile (· ≠ '=')
    .long (String.ofList name) (match rest.drop name.length with
      | _ :: value => some (String.ofList value)
      | [] => none)
  | '-' :: c :: rest => .short (c :: rest)
  | _ => .plain

namespace DaemonOptions

/-- A port in decimal digits, perhaps with a sign. -/
def port? (value : String) : Option Nat :=
  let (negative, digits) := match value.toList with
    | '+' :: ds => (false, ds)
    | '-' :: ds => (true, ds)
    | ds => (false, ds)
  let n := Nat.ofDigitChars 10 digits 0
  if digits.isEmpty || !digits.all Char.isDigit || 65535 < n || (negative && n ≠ 0) then none else some n

/-- Sets an option that has not been set. -/
def once? {α : Type} (old : Option α) (value : α) : Option (Option α) :=
  match old with
  | none => some (some value)
  | some _ => none

/-- The options with a value for one of them, unless it has one already or the value does not fit. -/
def set? (o : DaemonOptions) (name value : String) : Option DaemonOptions :=
  match name with
  | "config" => if value = "" then none else (once? o.config value).map fun v => { o with config := v }
  | "log-filter" => (once? o.logFilter value).map fun v => { o with logFilter := v }
  | "plugin-manager-endpoint" => (once? o.registryHost value).map fun v => { o with registryHost := v }
  | "plugin-manager-port" => (port? value).bind fun n => (once? o.registryPort n).map fun v => { o with registryPort := v }
  | _ => none

end DaemonOptions

namespace CommandLine

/-- Reads the words of a command line after given options. -/
def read (o : DaemonOptions) : List String → CommandLine
  | [] => .serve o
  | word :: rest =>
    match CommandWord.of word with
    | .long "help" none => .help
    | .long "version" none => .version
    | .short ('h' :: _) => .help
    | .short ('V' :: _) => .version
    | .long name (some value) =>
      match o.set? name value with
      | some o => read o rest
      | none => .misused word
    | .long name none =>
      match rest with
      | [] => .misused word
      | value :: rest =>
        match CommandWord.of value, o.set? name value with
        | .plain, some o => read o rest
        | _, _ => .misused word
    | .mark => if rest.isEmpty then .serve o else .misused word
    | _ => .misused word

/-- Reads a command line and two variables of the environment. -/
def of (words : List String) (configVariable logVariable : Option String) : CommandLine :=
  match read {} words with
  | .serve o =>
    if o.config = none ∧ configVariable = some "" then .misused ""
    else .serve { o with config := o.config.or configVariable, logFilter := o.logFilter.or logVariable }
  | c => c

end CommandLine
end Intendant

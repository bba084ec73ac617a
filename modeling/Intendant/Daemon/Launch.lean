import Intendant.Daemon.LogFilter
import Intendant.Daemon.Options
import Intendant.Plugin.Error
import Intendant.Settings.Load

/-! # Launching the daemon

The daemon hosts a plugin registry. It starts with the settings of a file, or the default ones, changed by the
options of its command line. `DaemonOptions.settings?` lets no settings pass that are out of bounds before or
after the change. -/

namespace Intendant

/-- Why the daemon does not serve. -/
inductive LaunchError where
  | notLoaded (path : String) (cause : SettingsError)
  | invalid (cause : SettingsError)
  | notStarted (cause : PluginError)
deriving DecidableEq, Repr

/-- An error with its causes. -/
def SettingsError.chain (e : SettingsError) : List String :=
  match e with
  | .unreadable cause => [e.message, cause.message]
  | _ => [e.message]

/-- An error with its causes. -/
def PluginError.chain (e : PluginError) : List String :=
  match e with
  | .bind _ cause => [e.message, cause]
  | _ => [e.message]

namespace LaunchError

/-- An error with its causes, each one after what it caused. -/
def chain : LaunchError → List String
  | notLoaded path cause => ("failed to load configuration from " ++ path) :: cause.chain
  | invalid cause => "invalid configuration" :: cause.chain
  | notStarted cause => "failed to start the plugin registry" :: cause.chain

/-- The error marked as such, and its causes. -/
def lines (e : LaunchError) : List String :=
  match e.chain with
  | [] => []
  | first :: causes => ("Error: " ++ first) :: causes

/-- The lines of a report. Several causes are numbered. -/
def report (e : LaunchError) : List String :=
  match e.lines with
  | [] => []
  | [first] => [first]
  | [first, cause] => [first, "", "Caused by:", "    " ++ cause]
  | first :: causes => [first, "", "Caused by:"] ++ causes.zipIdx.map fun (cause, i) => "    " ++ toString i ++ ": " ++ cause

end LaunchError

namespace DaemonOptions

/-- The settings with what the command line says in place of what the file says. -/
def change (o : DaemonOptions) (s : Settings) : Settings :=
  { s with planner := { s.planner with
      registryHost := o.registryHost.getD s.planner.registryHost
      registryPort := o.registryPort.getD s.planner.registryPort } }

/-- The settings to start with, given the contents of files. -/
def settings? [Json.Reading] (processors : Nat) (o : DaemonOptions) (contents : String → Except FileError ByteArray) :
    Except LaunchError Settings :=
  let given : Except LaunchError Settings := match o.config with
    | none => .ok {}
    | some path => (Settings.load? processors path (contents path)).mapError (LaunchError.notLoaded path)
  given.bind fun s => ((o.change s).validate? processors).mapError LaunchError.invalid

/-- The filter of the log, given the settings to start with. -/
def filter (o : DaemonOptions) (s : Settings) : LogFilter := LogFilter.ofText (o.logFilter.getD s.logFilter)

end DaemonOptions

namespace Daemon

/-- The program's name. -/
def name : String := "intent-planner"

/-- What the program does, as its help says it. -/
def about : String := "Hosts the actuator plugin registry of the A* planner; runs no planning loop"

/-- The program's name and version. -/
def versionText : String := name ++ " 0.1.0"

/-- What is said about a word that cannot be understood. -/
def misuseText (word : String) : String :=
  "error: invalid argument \x27" ++ word ++ "\x27\n\nFor more information, try \x27--help\x27."

/-- Where the log lines come from. -/
def target : String := "intent_planner"
/-- The target under which the registry logs. -/
def registryTarget : String := "intent_planner::plugins::registry"

/-- The log line about the first request that a registry could answer. -/
def servingLine (address : String) : String := "Starting to serve on endpoint " ++ address ++ "."

/-- The log line about a registry that serves at an address. -/
def readyLine (address : String) : String := "Planner ready; plugins register at Some(" ++ address ++ ")."

/-- The last log line. -/
def endLine : String := "Shutting down."

/-- The lines of a log, without their times, from the start of a registry at an address to its end. -/
def logLines (filter : LogFilter) (address : String) : List String :=
  [(registryTarget, servingLine address), (target, readyLine address), (target, endLine)].filterMap fun (source, line) =>
    if filter.passes source .info then some ("INFO " ++ source ++ ": " ++ line) else none

/-- The help that is printed on request. -/
def helpText : String := String.intercalate "\n" [
  about,
  "",
  "Usage: " ++ name ++ " [OPTIONS]",
  "",
  "Options:",
  "      --config <CONFIG>",
  "          Path to the TOML or JSON configuration; defaults apply when omitted [env: INTENT_PLANNER_CONFIG=]",
  "      --log-filter <LOG_FILTER>",
  "          Log filter directive, overrides generic.log_filter [env: INTENT_PLANNER_LOG=]",
  "      --plugin-manager-endpoint <PLUGIN_MANAGER_ENDPOINT>",
  "          Override the registry endpoint",
  "      --plugin-manager-port <PLUGIN_MANAGER_PORT>",
  "          Override the registry port",
  "  -h, --help",
  "          Print help",
  "  -V, --version",
  "          Print version"]

end Daemon
end Intendant

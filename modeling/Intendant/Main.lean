import Intendant.Daemon.Host

/-! # The daemon

The program reads its command line and the environment, and hosts a plugin registry until it is interrupted. -/

open Intendant

/-- What a file holds, or why it cannot be read. -/
def contentsOf (path : String) : IO (Except FileError ByteArray) := do
  try return .ok (← IO.FS.readBinFile path)
  catch
    | .noFileOrDirectory .. => return .error .missing
    | e => return .error (.other (toString e))

/-- Hosts a registry with the settings of the command line and of its file. -/
def hostRegistry [Json.Reading] (o : DaemonOptions) : IO UInt32 := do
  let contents ← contentsOf (o.config.getD "")
  let processors := (← Std.Async.System.getCPUInfo).size
  let outcome ← match o.settings? processors fun _ => contents with
    | .error e => pure (.error e)
    | .ok s => Std.Async.Async.block (Daemon.serveRegistry s.planner.registry (o.filter s))
  match outcome with
  | .ok () => return 0
  | .error e =>
    e.report.forM IO.eprintln
    return 1

/-- Does what the command line says. -/
def main (words : List String) : IO UInt32 := do
  match CommandLine.of words (← IO.getEnv "INTENT_PLANNER_CONFIG") (← IO.getEnv "INTENT_PLANNER_LOG") with
  | .help =>
    IO.println Daemon.helpText
    return 0
  | .version =>
    IO.println Daemon.versionText
    return 0
  | .misused word =>
    IO.eprintln (Daemon.misuseText word)
    return 2
  | .serve options => @hostRegistry .scaled options

import Intendant.Daemon.Launch
import Intendant.Daemon.Service
import Intendant.Text.Lossy
import Std.Http

/-! # Hosting a registry

Serves a plugin registry on a network interface. What is answered, accepted and evicted is decided by the service; here
are only the connections, the clock and the log. -/

namespace Intendant.Daemon
open Std.Async (Async)

/-- Writes a line to the log, where the filter lets it pass. -/
def log (filter : LogFilter) (target line : String) : IO Unit := do
  if filter.passes target .info then
    let now ← Std.Time.Timestamp.now
    IO.println ((Std.Time.PlainDateTime.ofWallTime (.ofTimestamp now .zero)).toLeanDateTimeString ++ "Z  INFO " ++ target ++ ": " ++ line)
    (← IO.getStdout).flush

/-! ## Connections -/

/-- An address with a port. -/
def socketAddress (port : Nat) : Std.Net.IPAddr → Std.Net.SocketAddress
  | .v4 a => .v4 ⟨a, port.toUInt16⟩
  | .v6 a => .v6 ⟨a, port.toUInt16⟩

/-- The addresses of a host, which may be given as an address itself. -/
def addresses (host : String) (port : Nat) : Async (List Std.Net.SocketAddress) := do
  let found ← match Std.Net.IPv4Addr.ofString host with
    | some a => pure [.v4 a]
    | none => Array.toList <$> Std.Async.DNS.getAddrInfo host (toString port)
  return found.map (socketAddress port)

/-- Whether the server at an address says that it is ready. -/
def askHealth (endpoint : String) (address : Std.Net.SocketAddress) : Async Bool := do
  try
    let connection ← Std.Async.TCP.Socket.Client.mk
    connection.connect address
    connection.send (Plugin.HttpRequest.headOf endpoint ⟨"GET", Plugin.healthPath, none, ""⟩).toUTF8
    return (← connection.recv? 4096).any fun answer => (Plugin.Response.ofHead? (Text.lossy answer)).any (·.isSuccess)
  catch _ => return false

/-- Whether the server at an endpoint is ready within some milliseconds. -/
def probe (timeoutMs : Nat) (endpoint : String) : Async Bool := do
  let asked : Async Bool := do
    try
      match Endpoint.parts? endpoint with
      | some (host, port) => (← addresses host port).anyM (askHealth endpoint)
      | none => return false
    catch _ => return false
  let late : Async Bool := do
    Std.Async.sleep (.ofNat timeoutMs)
    return false
  Async.race asked late

/-- A service on a network interface. -/
structure Host where
  service : IO.Ref Service
  probeTimeoutMs : Nat

/-- What a service finds on a network interface. -/
def Host.surroundings (h : Host) : Surroundings Async where
  service := h.service.get
  change f := h.service.modifyGet f
  probe := probe h.probeTimeoutMs
  pause milliseconds := Std.Async.sleep (.ofNat milliseconds)
  together actions := Array.toList <$> Async.concurrentlyAll actions.toArray

/-! ## Requests -/

instance [Json.Reading] : Std.Http.Server.Handler Host where
  onRequest h request := do
    let bytes : ByteArray ← request.body.readAll
    let head := request.line
    let contentType := (head.headers.get? Std.Http.Header.Name.contentType).map toString
    let response ← h.surroundings.respond
      ⟨toString head.method, toString head.uri.path, contentType, (String.fromUTF8? bytes).getD ""⟩
    let status := (Std.Http.Status.ofCode none response.status.toUInt16).getD .internalServerError
    (Std.Http.Response.withStatus status).json response.body

/-! ## Start and stop -/

/-- Why an address could not be taken. -/
def bindCause : IO.Error → String
  | .resourceBusy .. => PluginError.addressInUse
  | e => toString e

variable [Json.Reading]

/-- Listens on an address. -/
def listen (h : Host) (address : Std.Net.SocketAddress) : Async (Except String Std.Http.Server) := do
  try return .ok (← Std.Http.Server.serve address h)
  catch e => return .error (bindCause e)

/-- Serves a registry until the program is interrupted. -/
def serveRegistry (s : RegistrySettings) (filter : LogFilter) : Async (Except LaunchError Unit) := do
  let interrupt ← Std.Async.Signal.Waiter.mk .sigint false
  let interrupted ← interrupt.wait
  let service ← IO.mkRef { settings := s }
  let h : Host := { service := service, probeTimeoutMs := s.probeTimeoutMs }
  match ← firstThat (listen h) PluginError.noAddress (← addresses s.host s.port) with
  | .error cause => return .error (.notStarted (.bind (Endpoint.ofParts s.host s.port) cause))
  | .ok server =>
    let address := (server.localAddr.map toString).getD ""
    log filter registryTarget (servingLine address)
    log filter target (readyLine address)
    Std.Async.background do
      repeat if !(← h.surroundings.nextRound) then break
    let _ ← Std.Async.await interrupted
    log filter target endLine
    service.modify Service.close
    server.shutdown
    return .ok ()

end Intendant.Daemon

import Intendant.Text.Duration

/-! # Errors of plugins and registries -/

namespace Intendant

/-- Why a registry or a plugin could not serve, connect or register. -/
inductive PluginError where
  | bind (address cause : String)
  | unreachable (endpoint : String) (retries : Nat)
  | notReady (endpoint : String) (nanoseconds : Nat)
  | invalidPort (port managerPort : Nat)
  | rejected (reason : String)
  | http (cause : String)
  | stopped
deriving DecidableEq, Repr

/-- Causes for which an address cannot be taken. -/
def PluginError.addressInUse : String := "Address already in use (os error 98)"
/-- Why an address is not taken that no interface has. -/
def PluginError.addressNotAvailable : String := "Cannot assign requested address (os error 99)"
/-- Why nothing is taken where a host has no address. -/
def PluginError.noAddress : String := "could not resolve to any address"

/-- The text an error is shown as. -/
def PluginError.message : PluginError → String
  | bind address cause => "Failed to bind " ++ address ++ ": " ++ cause
  | unreachable endpoint retries =>
    "Failed establishing a connection to endpoint " ++ endpoint ++ " after " ++ toString retries ++ " retries"
  | notReady endpoint nanoseconds =>
    "Server at " ++ endpoint ++ " did not become ready within " ++ Text.duration nanoseconds
  | invalidPort port managerPort =>
    "Both ports need to be in a valid range: " ++ toString port ++ " - " ++ toString managerPort
  | rejected reason => "Server side registration error: " ++ reason
  | http cause => "HTTP error: " ++ cause
  | stopped => "Stub has been stopped"

end Intendant

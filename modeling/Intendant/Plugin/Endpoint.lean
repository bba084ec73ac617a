/-! # Endpoints

Where a server is reached: a host and a port, written with a colon between them. -/

namespace Intendant.Endpoint

/-- The host and the port of an endpoint. -/
def parts? (endpoint : String) : Option (String × Nat) :=
  let cs := endpoint.toList
  let digits := (cs.reverse.takeWhile (· ≠ ':')).reverse
  let host := cs.take (cs.length - digits.length - 1)
  if digits.isEmpty || !digits.all Char.isDigit || digits.length = cs.length then none
  else some (String.ofList host, Nat.ofDigitChars 10 digits 0)

/-- The endpoint at a host and a port. -/
def ofParts (host : String) (port : Nat) : String := host ++ ":" ++ toString port

/-- An endpoint as an address of the web. -/
def url (endpoint : String) : String := "http://" ++ endpoint

end Intendant.Endpoint

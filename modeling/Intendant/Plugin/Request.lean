import Intendant.Plugin.Message

/-! # Requests

Registries and plugins answer single requests: a method, a path and perhaps a document. `RegistryCall.of?` and
`PluginCall.of?` read what a request asks for, or give the response that refuses it. -/

namespace Intendant.Plugin

/-- The path at which a server says that it is ready. -/
def healthPath : String := "/healthz"
/-- The path at which a registry accepts plugins. -/
def registerPath : String := "/v1alpha1/register"
/-- The path at which a plugin opens streams of calls for candidates. -/
def nextStatePath : String := "/v1alpha1/next_state"
/-- The path at which a plugin performs plans. -/
def performPath : String := "/v1alpha1/perform"
/-- The path at which a plugin learns from states. -/
def effectPath : String := "/v1alpha1/effect"

/-- A single request. -/
structure HttpRequest where
  method : String := "GET"
  path : String
  contentType : Option String := none
  body : String := ""
deriving DecidableEq, Repr

/-- A status and a text. -/
structure Response where
  status : Nat
  body : String
deriving DecidableEq, Repr

namespace Response

/-- The response without a text of its own. -/
def bare (status : Nat) : Response := ⟨status, ""⟩

/-- The response of a server that is ready. -/
def healthy : Response := ⟨200, "ok"⟩

/-- The response that tells how a call went. -/
def ofCall : Except ActuatorError Unit → Response
  | .ok () => ⟨200, Wire.encode ({} : Done)⟩
  | .error e => ⟨500, e.message⟩

/-- Whether a response is of the class of successes. -/
def isSuccess (r : Response) : Bool := 200 ≤ r.status && r.status < 300

/-- Whether the status of a response is that of an error. -/
def isError (r : Response) : Bool := 400 ≤ r.status && r.status < 600

/-- What a client makes of a response. -/
def toCall (r : Response) : Except ActuatorError Unit :=
  if r.isSuccess then .ok () else .error (.remote r.status r.body)

/-- The response whose head a text begins with, as far as its status says. -/
def ofHead? (head : String) : Option Response :=
  let status := ((head.toList.dropWhile (· ≠ ' ')).drop 1).take 3
  if "HTTP/1.".toList.isPrefixOf head.toList && status.length = 3 && status.all Char.isDigit then
    some (.bare (Nat.ofDigitChars 10 status 0))
  else none

end Response

namespace HttpRequest

/-- The head of a request without a document, on a connection that serves for it alone. -/
def headOf (host : String) (q : HttpRequest) : String :=
  q.method ++ " " ++ q.path ++ " HTTP/1.1\r\nHost: " ++ host ++ "\r\nConnection: close\r\n\r\n"

/-- A request that posts a JSON message. -/
def post (path body : String) : HttpRequest := ⟨"POST", path, some "application/json", body⟩

/-- Whether a content type is that of a JSON document. -/
def isJsonType (contentType : String) : Bool :=
  let mime := (contentType.toList.takeWhile (· ≠ ';')).filter fun c => !(c = ' ' || c = '\t')
  let lowered := mime.map Char.toLower
  let kind := lowered.takeWhile (· ≠ '/')
  let detail := lowered.drop (kind.length + 1)
  kind = "application".toList && (detail = "json".toList || "nosj+".toList.isPrefixOf detail.reverse)

/-- The message in a request. The document has to be declared as such; a text that is no document is a bad
    request, and a document that is no such message cannot be processed. -/
def message? {α : Type} [Wire α] [Json.Reading] (q : HttpRequest) : Except Response α :=
  if !(q.contentType.any isJsonType) then .error (.bare 415)
  else
    match Json.parse? q.body with
    | none => .error (.bare 400)
    | some j =>
      match Wire.ofJson? j with
      | none => .error (.bare 422)
      | some m => .ok m

/-- Refuses all methods but one. Whoever may get a document may also ask for its head. -/
def onMethod {α : Type} (q : HttpRequest) (method : String) (answer : Except Response α) : Except Response α :=
  if q.method = method ∨ (method = "GET" ∧ q.method = "HEAD") then answer else .error (.bare 405)

end HttpRequest

/-- What a request asks of a registry. -/
inductive RegistryCall where
  | health
  | register (info : Info)

/-- The call a request makes to a registry, or the response to a request that makes none. -/
def RegistryCall.of? [Json.Reading] (q : HttpRequest) : Except Response RegistryCall :=
  if q.path = healthPath then q.onMethod "GET" (.ok .health)
  else if q.path = registerPath then
    q.onMethod "POST" ((q.message? : Except Response RegisterRequest).map fun m => .register m.info)
  else .error (.bare 404)

/-- What a request asks of a plugin. -/
inductive PluginCall where
  | health
  | perform (request : PerformRequest)
  | effect (request : EffectRequest)

/-- Reads a request to a plugin. A stream is not opened by a single request. -/
def PluginCall.of? [Json.Reading] (q : HttpRequest) : Except Response PluginCall :=
  if q.path = healthPath then q.onMethod "GET" (.ok .health)
  else if q.path = nextStatePath then q.onMethod "GET" (.error (.bare 400))
  else if q.path = performPath then q.onMethod "POST" (q.message?.map .perform)
  else if q.path = effectPath then q.onMethod "POST" (q.message?.map .effect)
  else .error (.bare 404)

end Intendant.Plugin

import Intendant.Plugin.Request

/-! # Sessions of plugins

A plugin answers the requests of a stream one after the other, in text. A request that it cannot read and a
call of its actuator that fails are both answered with no candidates. `remote` is an actuator as it looks
from the other end of such a stream. -/

namespace Intendant.Plugin
variable {σ : Type} [Json.Reading]

/-- The candidates an actuator has for a request; a failure counts as none. -/
def answerRequest (a : Actuator σ) (q : NextStateRequest) (w : σ) : NextStateAnswer × σ :=
  match a.nextState q.state q.goal q.profiles w with
  | (.ok cs, w) => (.ofCandidates cs, w)
  | (.error _, w) => ({}, w)

/-- The text that answers a text on a stream; one that cannot be read is answered without candidates. -/
def answerText (a : Actuator σ) (request : String) (w : σ) : String × σ :=
  match (Wire.decode? request : Option NextStateRequest) with
  | some q =>
    let (answer, w) := answerRequest a q w
    (Wire.encode answer, w)
  | none => (Wire.encode ({} : NextStateAnswer), w)

/-- What a plugin responds to a request outside of the streams. -/
def respond (a : Actuator σ) (q : HttpRequest) (w : σ) : Response × σ :=
  match PluginCall.of? q with
  | .error r => (r, w)
  | .ok .health => (.healthy, w)
  | .ok (.perform m) =>
    let (r, w) := a.perform m.state m.plan w
    (.ofCall r, w)
  | .ok (.effect m) =>
    let (r, w) := a.effect m.state m.profiles w
    (.ofCall r, w)

/-- What a client reads in the text of an answer. -/
def readAnswer (text : String) : Except ActuatorError (List Candidate) :=
  match (Wire.decode? text : Option NextStateAnswer) with
  | some a => .ok a.candidates
  | none => .error (.serialization "")

/-- An actuator behind a stream that delivers every text. -/
def remote (a : Actuator σ) : Actuator σ where
  name := a.name
  group := a.group
  nextState state goal profiles w :=
    let (text, w) := answerText a (Wire.encode (⟨state, goal, profiles⟩ : NextStateRequest)) w
    (readAnswer text, w)
  perform state plan w :=
    let (r, w) := respond a (.post performPath (Wire.encode (⟨state, plan⟩ : PerformRequest))) w
    (r.toCall, w)
  effect state profiles w :=
    let (r, w) := respond a (.post effectPath (Wire.encode (⟨state, profiles⟩ : EffectRequest))) w
    (r.toCall, w)

end Intendant.Plugin

import Intendant.Action
import Intendant.Profile
import Intendant.State.Basic
import Intendant.Text.Duration

/-! # Actuators

An actuator proposes states that follow a given one, performs the actions of a plan that are its own, and
brings its view of their effect up to date. It may keep a memory of type `σ`, which every call reads and
writes; an actuator without memory is one over any `σ` that leaves it alone. -/

namespace Intendant

/-- Why a call of an actuator failed. -/
inductive ActuatorError where
  | transport (detail : String)
  | remote (status : Nat) (message : String)
  | streamClosed
  | timeout (nanoseconds : Nat)
  | serialization (detail : String)
  | stopped
  | failed (message : String)
deriving DecidableEq, Repr

/-- The text an error is shown as. -/
def ActuatorError.message : ActuatorError → String
  | transport detail => "Transport error: " ++ detail
  | remote status message => "Plugin answered with status " ++ toString status ++ ": " ++ message
  | streamClosed => "Stream closed"
  | timeout nanoseconds => "Call timed out after " ++ Text.duration nanoseconds
  | serialization detail => "Serialization error: " ++ detail
  | stopped => "Actuator stopped"
  | failed message => message

/-- A state that an actuator proposes, with the utility of getting there and the action that does it. -/
structure Candidate where
  state : State
  utility : Float
  action : Action
deriving DecidableEq

/-- What the planner sees of an actuator with memory `σ`. -/
structure Actuator (σ : Type) where
  name : String
  group : String
  /-- The candidates that follow a state on the way to a goal. -/
  nextState : (state goal : State) → Profiles → σ → Except ActuatorError (List Candidate) × σ
  /-- Performs the actions of a plan that are the actuator's own. -/
  perform : (state : State) → (plan : List Action) → σ → Except ActuatorError Unit × σ
  /-- Brings the view of the effect of past actions up to date. -/
  effect : (state : State) → Profiles → σ → Except ActuatorError Unit × σ

end Intendant

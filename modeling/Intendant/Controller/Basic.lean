import Intendant.Controller.Recent
import Intendant.Profile
import Intendant.Settings.Basic
import Intendant.State.Basic

/-! # Controllers

A controller knows the intents and the profiles and hands every intent without a recent plan to its workers
by way of a bounded queue. Nothing is queued before the first tick. `Controller.pending` are the intents that
a round of queueing picks, in the order of their keys. -/

namespace Intendant

/-- Why the observed state of a target could not be had. -/
inductive SourceError where
  | notFound (target : String)
  | unavailable (cause : String)
deriving DecidableEq, Repr

/-- The text an error is shown as. -/
def SourceError.message : SourceError → String
  | notFound target => "Target " ++ target ++ " not found"
  | unavailable cause => "State source unavailable: " ++ cause

/-- What all tasks of a controller share. `π` stands for planners; times are in milliseconds. -/
structure Controller (π : Type) where
  settings : ControllerSettings
  now : Nat := 0
  warm : Bool := false
  paused : Bool := false
  intents : KeyMap Intent := .empty
  profiles : Profiles := .empty
  planner : Option π := none
  /-- The intents that were planned for not long ago. -/
  recent : Recent
  /-- The keys of the intents that wait for a worker, the first one first. -/
  queue : List String := []
  /-- Whether nobody reads the queue any more. -/
  closed : Bool := false

namespace Controller
variable {π : Type}

/-- A controller that knows no intents yet. -/
def initial (settings : ControllerSettings) (planner : Option π) : Controller π where
  settings := settings
  planner := planner
  recent := { lifetime := settings.cacheTtlMs }

/-- The room of the queue, at least for one key. -/
def capacity (c : Controller π) : Nat := if c.settings.channelLength = 0 then 1 else c.settings.channelLength

/-- Adds or replaces an intent. An intent whose priority is not at least zero is removed. -/
def withIntent (c : Controller π) (i : Intent) : Controller π :=
  { c with intents := if 0.0 ≤ i.priority then c.intents.insert i.key i else c.intents.erase i.key }

/-- Adds or replaces a profile. An obsolete profile is removed. -/
def withProfile (c : Controller π) (p : Profile) : Controller π :=
  { c with profiles := if p.kind = .obsolete then c.profiles.erase p.key else c.profiles.insert p.key p }

/-- The keys of the intents without a recent plan. -/
def pending (c : Controller π) : List String := c.intents.keys.filter fun k => !c.recent.contains c.now k

end Controller
end Intendant

import Intendant.Profile
import Intendant.State.Basic

/-! # Dominance and distance

`isBetter` says that a state meets another one on every objective, `distance` how far the two are apart,
and `lessResources?` whether a state has the smaller footprint, as far as the footprints can be summed up. -/

namespace Intendant.State

/-- Whether a value of an objective meets a target. -/
def favorable (ps : Profiles) (objective : String) (value target : Float) : Bool :=
  if ps.minimizes objective then value ≤ target else target ≤ value

/-- Whether a state meets or beats another one on every objective. Both need the same objectives, and at
    least one. -/
def isBetter (s other : State) (ps : Profiles) : Bool :=
  s.intent.objectives.size = other.intent.objectives.size && !s.intent.objectives.isEmpty &&
    s.intent.objectives.toList.all fun (k, value) =>
      match other.intent.objectives.get? k with
      | some target => favorable ps k value target
      | none => false

/-- The sum of the squared differences of the objectives, in the order of their names. An objective that
    the other state lacks counts as zero there. -/
def squaredDistance (s other : State) : Float :=
  s.intent.objectives.toList.foldl (fun sum (k, value) =>
    let d := value - (other.intent.objectives.get? k).getD 0.0
    sum + d * d) 0.0

/-- The Euclidean distance of the objectives. For a state that is better and differs it is inverted and
    negative, so that better states come first, the closer ones before the farther ones. -/
def distance (s other : State) (ps : Profiles) : Float :=
  let squares := s.squaredDistance other
  if squares != 0.0 && s.isBetter other ps then -1.0 / squares.sqrt else squares.sqrt

/-- The sum of two resources. Beyond the range of 64 bits there is none. -/
def sum? (a b : Int64) : Option Int64 :=
  let sum := a.toInt + b.toInt
  if -9223372036854775808 ≤ sum ∧ sum ≤ 9223372036854775807 then some (Int64.ofInt sum) else none

/-- The footprint: the resources summed up in the order of their names. A sum on the way that leaves the range
    of 64 bits ends the program, so there is no footprint. -/
def footprint? (s : State) : Option Int64 := s.resources.values.foldlM sum? 0

/-- Whether the footprint is smaller than that of another state. There is no answer where one of the two has
    no footprint. -/
def lessResources? (s other : State) : Option Bool := do
  let own ← s.footprint?
  let others ← other.footprint?
  return own < others

end Intendant.State

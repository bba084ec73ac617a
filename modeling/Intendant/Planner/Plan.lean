import Intendant.Planner.Synthesis

/-! # Plans

A plan is the list of actions on a cheap path through the synthesized graph, without the actions that the
planner itself put on edges. Where no path to the goal was found, the states closest to the goal may be
tied to it instead. A synthesis that was given up has no plan. -/

namespace Intendant
namespace Synthesis

/-- The vertices between start and goal, the closest to the goal first. Equally close ones keep their
    order. -/
def closest (s : Synthesis) (ps : Profiles) : OpenSet Nat Float :=
  match s.graph.value? goalId with
  | none => .empty
  | some goal =>
    s.graph.values.zipIdx.foldl (fun q (state, id) =>
      if id = startId ∨ id = goalId then q else q.push id (state.distance goal ps)) .empty

/-- Ties the states closest to the goal to it, as many as the limit allows. -/
def withOpportunities (s : Synthesis) (limit : Nat) (ps : Profiles) : Synthesis :=
  let chosen := (s.closest ps).toList.take limit
  let graph := chosen.foldl (fun g id => g.addEdge id goalId 0.0 { name := Action.opportunistic }) s.graph
  { s with graph := graph }

/-- The cheapest way to the goal by utility, guided by the distance of the states. -/
def search (s : Synthesis) (ps : Profiles) : Route :=
  s.graph.solve startId goalId .utility fun state goal => state.distance goal ps

/-- The way that a planner takes through a synthesized graph. -/
def route (limits : PlannerLimits) (ps : Profiles) (s : Synthesis) : Route :=
  if s.hasGoal then s.search ps
  else if 0 < limits.opportunistic then (s.withOpportunities limits.opportunistic ps).search ps
  else .unreachable

end Synthesis

/-- The actions along a route, if there is one. -/
def Route.actions : Route → List Action
  | .found _ actions => actions
  | _ => []

namespace Planner
variable {σ : Type} (limits : PlannerLimits) (actuators : List (Actuator σ))

/-- The plan of a route: its actions without the synthetic ones. -/
def planOf (r : Route) : List Action := r.actions.filter fun a => !a.isSynthetic

/-- The plan of a synthesis, unless that one was given up. -/
def plan? (ps : Profiles) (s : Synthesis) : Option (List Action) :=
  if s.overflowed then none else some (planOf (s.route limits ps))

/-- The plan from a start to a goal, with what the actuators remember afterwards. There is none where the synthesis
    is given up. -/
def createPlan (start goal : State) (ps : Profiles) (w : σ) : Option (List Action) × σ :=
  let (s, w) := Synthesis.build limits actuators start goal ps w
  (plan? limits ps s, w)

/-- Lets every actuator perform its actions of a plan, one after the other. Failures are left to the
    actuators. -/
def executePlan (state : State) (plan : List Action) (w : σ) : σ :=
  actuators.foldl (fun w a => (a.perform state plan w).2) w

/-- Lets every actuator bring its view of the effects up to date. Failures are left to the actuators. -/
def triggerEffect (state : State) (ps : Profiles) (w : σ) : σ :=
  actuators.foldl (fun w a => (a.effect state ps w).2) w

end Planner
end Intendant

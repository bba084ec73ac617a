import Intendant.Action
import Intendant.State.Dominance
import Intendant.Text.Quoted
import Intendant.Graph.Basic
import Intendant.Graph.Cost
import Intendant.Graph.Dot
import Intendant.Graph.OpenSet
import Intendant.Graph.Search
import Intendant.Graph.Sketch
import Intendant.Actuator.Basic
import Intendant.Actuator.Scripted
import Intendant.Controller.Basic
import Intendant.Controller.Rehearsal
import Intendant.Daemon.Host
import Intendant.Main
import Intendant.Network.Basic
import Intendant.Network.Exchange
import Intendant.Plugin.Conversation
import Intendant.Registry.System
import Intendant.Trace
import Intendant.Proofs.Graph.Traced
import Intendant.Proofs.Graph.Invariant
import Intendant.Proofs.Graph.Frontier
import Intendant.Proofs.Graph.Outcome
import Intendant.Proofs.Graph.Solve
import Intendant.Proofs.Graph.Unrounded
import Intendant.Proofs.Graph.Exact
import Intendant.Proofs.Double.Value
import Intendant.Proofs.Graph.Amount
import Intendant.Proofs.State.Distance
import Intendant.Proofs.State.Dominance
import Intendant.Proofs.KeyMap
import Intendant.Proofs.Graph.Repriced
import Intendant.Proofs.Graph.Hops
import Intendant.Proofs.Graph.Queue
import Intendant.Proofs.Graph.Heap
import Intendant.Proofs.Planner.Exploration
import Intendant.Proofs.Planner.Charted
import Intendant.Proofs.Planner.Goal
import Intendant.Proofs.Planner.Plan
import Intendant.Proofs.Planner.Edges
import Intendant.Proofs.Planner.Structure
import Intendant.Proofs.Planner.Bounds
import Intendant.Proofs.Planner.BreadthFirst
import Intendant.Proofs.Planner.Satisfied
import Intendant.Proofs.Graph.Termination
import Intendant.Proofs.Planner.Ending
import Intendant.Proofs.Planner.Detour
import Intendant.Proofs.Planner.Opportunity
import Intendant.Proofs.Planner.Frugality
import Intendant.Proofs.Registry.Basic
import Intendant.Proofs.Registry.Steps
import Intendant.Proofs.Registry.Safety
import Intendant.Proofs.Registry.Runs
import Intendant.Proofs.Registry.Counters
import Intendant.Proofs.Registry.Eviction
import Intendant.Proofs.Json.Reader
import Intendant.Proofs.Double.Rounding
import Intendant.Proofs.Double.Scientific
import Intendant.Proofs.Decimal.Nearest
import Intendant.Proofs.Decimal.Shortest
import Intendant.Proofs.Json.Number
import Intendant.Proofs.Wire.Basic
import Intendant.Proofs.Wire.Records
import Intendant.Proofs.Wire.Messages
import Intendant.Proofs.Planner.Mirrored
import Intendant.Proofs.Planner.Widened
import Intendant.Proofs.Planner.Failures
import Intendant.Proofs.Plugin.Remote
import Intendant.Proofs.Plugin.Slot
import Intendant.Proofs.Plugin.Conversation
import Intendant.Proofs.Network.Calls
import Intendant.Proofs.Controller.Basic
import Intendant.Proofs.Controller.Steps
import Intendant.Proofs.Controller.Repeats
import Intendant.Proofs.Controller.History
import Intendant.Proofs.Controller.Records
import Intendant.Proofs.Controller.Safety
import Intendant.Proofs.Controller.Recent
import Intendant.Proofs.State.Footprint
import Intendant.Proofs.State.Ranking
import Intendant.Proofs.Wire.Outline
import Intendant.Proofs.Wire.Defaults
import Intendant.Proofs.Settings.Bounds
import Intendant.Proofs.Settings.Documents
import Intendant.Proofs.Settings.Launch
import Intendant.Proofs.State.Canonical
import Intendant.Proofs.Graph.Tables
import Intendant.Proofs.Graph.Indexed
import Intendant.Proofs.Graph.Drawing
import Intendant.Proofs.Registry.Serving
import Intendant.Proofs.Registry.Dial
import Intendant.Proofs.Registry.Reached
import Intendant.Proofs.Network.Registration

import Intendant.Graph.Dot
import Intendant.State.Dominance

/-! # Sketches

Values for graphs drawn by hand: besides states there are plain texts, and sealed texts, which have no
document and show their quoted form. -/

namespace Intendant

/-- A value of a graph drawn by hand. -/
inductive Sketch where
  | text (value : String)
  | sealed (value : String)
  | state (value : State)
deriving DecidableEq

instance : Labelled Sketch where
  document?
    | .text s => some (.string s)
    | .sealed _ => none
    | .state s => some (Wire.toJson s)
  fallback
    | .sealed s => Text.quoted s.toList
    | _ => []

/-- The distance of two states, and nothing for other values. -/
def Sketch.distance (ps : Profiles) : Sketch → Sketch → Float
  | .state a, .state b => a.distance b ps
  | _, _ => 0.0

end Intendant

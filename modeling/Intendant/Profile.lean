import Intendant.KeyMap
import Intendant.Wire.Basic

/-! # Profiles of objectives

A profile says which way an objective points: whether smaller or larger values of it are better. -/

namespace Intendant

/-- What an objective measures. -/
inductive ProfileKind where
  | obsolete
  | latency
  | availability
  | throughput
  | power
deriving DecidableEq, Repr

namespace ProfileKind

/-- The name a kind goes by in documents. -/
def name : ProfileKind → String
  | obsolete => "obsolete"
  | latency => "latency"
  | availability => "availability"
  | throughput => "throughput"
  | power => "power"

/-- The kind of a name. -/
def ofName? (s : String) : Option ProfileKind :=
  [obsolete, latency, availability, throughput, power].find? (·.name = s)

/-- The kind that a text names in any case of letters; any other text is obsolete. No letter outside ASCII
    has a lowercase form that occurs in a name, so only ASCII letters are lowered. -/
def ofText (s : String) : ProfileKind := (ofName? (s.map Char.toLower)).getD obsolete

instance : Wire ProfileKind where
  toJson k := .string k.name
  ofJson? j := (Wire.variant? j).bind ofName?

end ProfileKind

/-- A profile of one objective. -/
structure Profile where
  key : String
  kind : ProfileKind
  minimize : Bool
deriving DecidableEq, Repr

namespace Profile

/-- Whether smaller values of the objective are better. -/
def isMinimized (p : Profile) : Bool := p.minimize || p.kind = .latency || p.kind = .power

instance : Wire Profile where
  toJson p := .object [("key", .string p.key), ("profile_type", Wire.toJson p.kind), ("minimize", .bool p.minimize)]
  ofJson? j := do
    let f ← Wire.Fields.of? ["key", "profile_type", "minimize"] j
    return ⟨← f.required? "key", ← f.required? "profile_type", ← f.optional? "minimize" false⟩

end Profile

/-- Profiles by the name of their objective. -/
abbrev Profiles := KeyMap Profile

/-- Whether smaller values of an objective are better. Without a profile larger ones are. -/
def Profiles.minimizes (ps : Profiles) (objective : String) : Bool :=
  match ps.get? objective with
  | some p => p.isMinimized
  | none => false

end Intendant

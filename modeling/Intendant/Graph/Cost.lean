/-! # Costs

A search adds costs up and compares them. Doubles are the costs of a plan; the operations are gathered in a
class so that the same search can be read over exact numbers. -/

namespace Intendant

/-- What a search needs of its costs. -/
class Cost (κ : Type) where
  /-- The cost of going nowhere. -/
  zero : κ
  /-- The cost of an edge where edges are counted. -/
  one : κ
  add : κ → κ → κ
  /-- Whether the first cost is an improvement on the second. -/
  less : κ → κ → Bool
  /-- Whether the first cost may be taken before the second. This order is total. -/
  notAfter : κ → κ → Bool

namespace Cost

/-- The order of priorities: NaN is greater than everything and equal to itself, and the two zeros are
    equal. -/
def floatNotAfter (a b : Float) : Bool := b.isNaN || decide (a ≤ b)

instance : Cost Float where
  zero := 0.0
  one := 1.0
  add a b := a + b
  less a b := decide (a < b)
  notAfter := floatNotAfter

end Cost
end Intendant

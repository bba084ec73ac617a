import Intendant.KeyMap

/-! # Recent names

A set of names that forgets each of them a set time after it was put. `Recent.put` and `Recent.contains`
take the time of the clock; forgotten names take up room until the next purge. -/

namespace Intendant

/-- Names with the times at which they were last put. -/
structure Recent where
  lifetime : Nat
  entries : KeyMap Nat := .empty

namespace Recent

/-- Whether a name put at a time is still remembered. -/
def isFresh (r : Recent) (now putAt : Nat) : Bool := now - putAt ≤ r.lifetime

/-- Enters a name at a time, in place of its earlier entry. -/
def put (r : Recent) (now : Nat) (name : String) : Recent := { r with entries := r.entries.insert name now }

/-- Whether a name is remembered. A name exactly as old as the lifetime still is. -/
def contains (r : Recent) (now : Nat) (name : String) : Bool :=
  match r.entries.get? name with
  | some putAt => r.isFresh now putAt
  | none => false

/-- Drops the names that are forgotten. -/
def purge (r : Recent) (now : Nat) : Recent := { r with entries := r.entries.filter fun _ putAt => r.isFresh now putAt }

/-- The number of names that take up room. -/
def size (r : Recent) : Nat := r.entries.size

end Recent

/-- A task that is due again and again: the time at which it is due next, and the time between. A period of
    nothing counts as the smallest one. -/
structure Timer where
  next : Nat
  period : Nat

namespace Timer

/-- A timer that is due after its first period. -/
def startingLater (now period : Nat) : Timer := ⟨now + period, period⟩

/-- Whether a timer has gone off by a time. -/
def isDue (t : Timer) (now : Nat) : Bool := t.next ≤ now

/-- The timer after it has gone off once. -/
def advanced (t : Timer) : Timer := { t with next := t.next + t.period }

end Timer

/-- Recent names with a clock and, where one runs, a purge. -/
structure RecentKeeper where
  recent : Recent
  now : Nat := 0
  purger : Option Timer := none

namespace RecentKeeper

/-- Starts a purge that goes off at once and then after every period. -/
def startPurge (k : RecentKeeper) (period : Nat) : RecentKeeper :=
  { k with recent := k.recent.purge k.now, purger := if period = 0 then none else some (.startingLater k.now period) }

/-- Ends the purge, and says whether there was one. -/
def stopPurge (k : RecentKeeper) : Bool × RecentKeeper := (k.purger.isSome, { k with purger := none })

/-- Lets time pass up to a moment, with the purge going off on the way. -/
def advanceTo (target : Nat) : Nat → RecentKeeper → RecentKeeper
  | 0, k => { k with now := target }
  | fuel + 1, k =>
    match k.purger with
    | none => { k with now := target }
    | some t =>
      if target < t.next then { k with now := target }
      else advanceTo target fuel { recent := k.recent.purge t.next, now := t.next, purger := some t.advanced }

/-- The keeper after some time has passed, its timers having gone off in order. -/
def advance (k : RecentKeeper) (milliseconds : Nat) : RecentKeeper :=
  k.advanceTo (k.now + milliseconds) (milliseconds + 1)

end RecentKeeper
end Intendant

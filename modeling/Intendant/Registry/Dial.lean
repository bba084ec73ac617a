import Intendant.Plugin.Error

/-! # Dialing

A server is probed until it is ready, with a pause between two probes. `dial` gives up after a number of
retries, `poll` after a time. Both run in any monad that can probe and pause, so they serve for real servers,
for servers in memory and for a given sequence of outcomes. -/

namespace Intendant

/-- Dialing under way: what was asked for, and the failed probes so far. They are counted in 32 bits. -/
structure Dialing where
  url : String
  retries : UInt32
  backoffMs : Nat
  failures : UInt32 := 0
deriving DecidableEq, Repr

/-- Counts a failed probe, and gives up if these are now more than the retries. There is no outcome if 32 bits do not
    hold the count. -/
def Dialing.countFailure? (d : Dialing) : Option (Except PluginError Dialing) :=
  if d.failures.toNat + 1 < UInt32.size then
    let failures := d.failures + 1
    if d.retries < failures then some (.error (.unreachable d.url d.retries.toNat))
    else some (.ok { d with failures := failures })
  else none

section
variable {m : Type → Type} [Monad m]

/-- Probes until the server is ready or dialing is given up. There is no outcome if neither has come about after
    so many probes, or if the failures cannot be counted any more. -/
def Dialing.run (probe : m Bool) (pause : Nat → m Unit) : (probes : Nat) → Dialing → m (Option (Except PluginError Unit))
  | 0, _ => return none
  | probes + 1, d => do
    if ← probe then return some (.ok ())
    match d.countFailure? with
    | none => return none
    | some (.error e) => return some (.error e)
    | some (.ok d) =>
      pause d.backoffMs
      run probe pause probes d

/-- Dials a server. The first probe and one for each retry settle it, unless the retries are the largest number
    of 32 bits: no count of failures is larger, so the failure of the last probe leaves no outcome. -/
def dial (probe : m Bool) (pause : Nat → m Unit) (url : String) (retries : UInt32) (backoffMs : Nat) :
    m (Option (Except PluginError Unit)) :=
  Dialing.run probe pause (retries.toNat + 1) { url, retries, backoffMs }

/-- Probes until the server is ready, or until a time after which it is not probed again. A probe is taken to
    need no time, a pause the interval; `rounds` bounds the number of pauses. -/
def poll (probe : m Bool) (pause : m Unit) (interval deadline : Nat) : (rounds elapsed : Nat) → m Bool
  | 0, _ => probe
  | rounds + 1, elapsed => do
    if ← probe then return true
    if deadline ≤ elapsed then return false
    pause
    poll probe pause interval deadline rounds (elapsed + interval)

end
end Intendant

import Intendant.Controller.Basic
import Intendant.Proofs.KeyMap

/-! # Intents, recent keys and what is to be queued

A key is to be queued if it has an intent and is not among the recent ones (`Controller.mem_pending`), and the keys that
are to be queued are in order (`Controller.pending_sorted`). -/

namespace Intendant

namespace Recent
variable {r : Recent} {now putAt : Nat} {k : String}

theorem isFresh_iff : r.isFresh now putAt = true ↔ now - putAt ≤ r.lifetime := decide_eq_true_iff

theorem contains_iff : r.contains now k = true ↔ ∃ putAt, r.entries.get? k = some putAt ∧ now - putAt ≤ r.lifetime := by
  unfold contains
  cases r.entries.get? k with
  | none => simp
  | some putAt => simp [isFresh_iff]

theorem get?_put (r : Recent) (now : Nat) (name k : String) :
    (r.put now name).entries.get? k = if k = name then some now else r.entries.get? k := KeyMap.get?_insert ..

theorem get?_purge : (r.purge now).entries.get? k = some putAt ↔ r.entries.get? k = some putAt ∧ now - putAt ≤ r.lifetime := by
  rw [purge, KeyMap.get?_filter, Option.filter_eq_some_iff, isFresh_iff]

end Recent

namespace Controller
variable {π : Type} {c : Controller π} {k : String}

theorem mem_pending : k ∈ c.pending ↔ (c.intents.get? k).isSome = true ∧ c.recent.contains c.now k = false := by
  rw [pending, List.mem_filter, KeyMap.mem_keys, Bool.not_eq_true']

theorem pending_sorted (c : Controller π) : c.pending.Pairwise (· < ·) := (KeyMap.keys_sorted c.intents).filter _

end Controller
end Intendant

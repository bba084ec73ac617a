import Mathlib.Data.Nat.Find
import Mathlib.Logic.Function.Iterate
import Mathlib.Order.Basic
import Intendant.Registry.Dial

/-! # Probes and pauses of dialing

Dialing runs in a world that every probe and every pause may change. A round that fails leads from one world to the next
(`retried`), so that the world after some failed rounds says what the next probe finds. Dialing ends with the first ready
probe if this comes within the retries (`run_of_ready`), and otherwise with the error once the retries are used up
(`run_of_unready`). In a world that keeps a log, probes and pauses take turns (`run_noted_of_ready`, `run_noted_of_unready`). -/

namespace Intendant

namespace Dialing
variable {d : Dialing}

/-- The same dialing with some more failures counted. -/
structure Later (d : Dialing) (k : Nat) (d' : Dialing) : Prop where
  url : d'.url = d.url
  retries : d'.retries = d.retries
  backoffMs : d'.backoffMs = d.backoffMs
  failures : d'.failures.toNat = d.failures.toNat + k

theorem Later.refl (d : Dialing) : d.Later 0 d := ⟨rfl, rfl, rfl, rfl⟩

theorem Later.trans {d₁ d₂ : Dialing} {j k : Nat} (h₁ : d.Later j d₁) (h₂ : d₁.Later k d₂) : d.Later (k + j) d₂ where
  url := h₂.url.trans h₁.url
  retries := h₂.retries.trans h₁.retries
  backoffMs := h₂.backoffMs.trans h₁.backoffMs
  failures := by rw [h₂.failures, h₁.failures, Nat.add_assoc, Nat.add_comm j]

/-- A failure that can be counted either ends dialing or leaves it with this count. -/
theorem countFailure?_eq (hcountable : d.failures.toNat + 1 < UInt32.size) :
    d.countFailure? = some (if d.retries.toNat ≤ d.failures.toNat then .error (.unreachable d.url d.retries.toNat)
      else .ok { d with failures := d.failures + 1 }) ∧ (d.failures + 1).toNat = d.failures.toNat + 1 := by
  have hcount : (d.failures + 1).toNat = d.failures.toNat + 1 := by
    rw [UInt32.toNat_add, UInt32.toNat_one, Nat.mod_eq_of_lt hcountable]
  refine ⟨?_, hcount⟩
  rw [countFailure?, if_pos hcountable]
  simp only [UInt32.lt_iff_toNat_lt, hcount, Nat.lt_succ_iff, apply_ite some]

/-- A failure within the retries is counted. -/
theorem countFailure?_of_lt (h : d.failures.toNat < d.retries.toNat) :
    ∃ d', d.countFailure? = some (.ok d') ∧ d.Later 1 d' := by
  obtain ⟨heq, hcount⟩ := countFailure?_eq (d := d) (Nat.lt_of_le_of_lt h d.retries.toNat_lt_size)
  rw [if_neg (Nat.not_le.mpr h)] at heq
  exact ⟨_, heq, rfl, rfl, rfl, hcount⟩

/-- The failure after the last retry ends dialing, where there is a number left to count it. -/
theorem countFailure?_of_eq (h : d.failures.toNat = d.retries.toNat) (hcountable : d.retries.toNat < UInt32.size - 1) :
    d.countFailure? = some (.error (.unreachable d.url d.retries.toNat)) := by
  rw [(countFailure?_eq (h ▸ Nat.add_lt_of_lt_sub hcountable)).1, if_pos h.ge]

/-! ### Any world -/

section
variable {σ : Type} (probe : StateM σ Bool) (pause : Nat → StateM σ Unit) {w : σ} {k probes : Nat}

/-- The world after a probe and the pause that follows it. -/
def retried (backoffMs : Nat) (w : σ) : σ := (pause backoffMs (probe w).2).2

theorem run_succ (d : Dialing) (probes : Nat) (w : σ) : d.run probe pause (probes + 1) w =
    if (probe w).1 = true then (some (.ok ()), (probe w).2)
    else
      match d.countFailure? with
      | none => (none, (probe w).2)
      | some (.error e) => (some (.error e), (probe w).2)
      | some (.ok d') => d'.run probe pause probes (retried probe pause d'.backoffMs w) := by
  rcases hprobe : probe w with ⟨ready, w'⟩
  simp only [run, retried, bind, StateT.bind, hprobe]
  cases ready
  · rcases d.countFailure? with _ | e | d' <;> rfl
  · rfl

/-- Failed rounds within the retries are only counted. -/
theorem run_of_failed (hretries : d.failures.toNat + k ≤ d.retries.toNat)
    (hfailed : ∀ i < k, (probe ((retried probe pause d.backoffMs)^[i] w)).1 = false) :
    ∃ d', d.Later k d' ∧ ∀ probes, d.run probe pause (probes + k) w =
      d'.run probe pause probes ((retried probe pause d.backoffMs)^[k] w) := by
  -- The first round comes off, as it changes the count and the world that the other rounds begin with.
  induction k generalizing d w with
  | zero => exact ⟨d, .refl d, fun _ => rfl⟩
  | succ k ih =>
    obtain ⟨d₁, hcount, hd₁⟩ := countFailure?_of_lt (d := d) (by omega)
    have hfirst : ¬(probe w).1 = true := Bool.eq_false_iff.mp (hfailed 0 (Nat.succ_pos k))
    have hretries₁ : d₁.failures.toNat + k ≤ d₁.retries.toNat := by
      rw [hd₁.failures, hd₁.retries]
      omega
    obtain ⟨d', hd', hrest⟩ := ih (w := retried probe pause d.backoffMs w) hretries₁
      (by rw [hd₁.backoffMs]; exact fun i hi => hfailed (i + 1) (Nat.succ_lt_succ hi))
    refine ⟨d', hd₁.trans hd', fun probes => ?_⟩
    rw [← Nat.add_assoc, run_succ, if_neg hfirst, hcount]
    dsimp only
    rw [hd₁.backoffMs, hrest, hd₁.backoffMs]
    rfl

/-- Dialing ends well at the first ready probe if it comes within the retries. -/
theorem run_of_ready (hretries : d.failures.toNat + k ≤ d.retries.toNat) (hprobes : k < probes)
    (hready : (probe ((retried probe pause d.backoffMs)^[k] w)).1 = true)
    (hfailed : ∀ i < k, (probe ((retried probe pause d.backoffMs)^[i] w)).1 = false) :
    d.run probe pause probes w = (some (.ok ()), (probe ((retried probe pause d.backoffMs)^[k] w)).2) := by
  obtain ⟨d', -, hrun⟩ := run_of_failed probe pause hretries hfailed
  obtain ⟨rest, rfl⟩ := Nat.exists_eq_add_of_le' hprobes
  rw [← Nat.succ_add_eq_add_succ, hrun, run_succ, if_pos hready]

/-- Dialing is given up after the first probe and one for each retry if none of them is ready. -/
theorem run_of_unready (hretries : d.failures.toNat + k = d.retries.toNat) (hcountable : d.retries.toNat < UInt32.size - 1)
    (hprobes : k < probes) (hfailed : ∀ i ≤ k, (probe ((retried probe pause d.backoffMs)^[i] w)).1 = false) :
    d.run probe pause probes w = (some (.error (.unreachable d.url d.retries.toNat)),
      (probe ((retried probe pause d.backoffMs)^[k] w)).2) := by
  obtain ⟨d', hd', hrun⟩ := run_of_failed probe pause hretries.le fun i hi => hfailed i (Nat.le_of_lt hi)
  obtain ⟨rest, rfl⟩ := Nat.exists_eq_add_of_le' hprobes
  have hlast : ¬(probe ((retried probe pause d.backoffMs)^[k] w)).1 = true := Bool.eq_false_iff.mp (hfailed k (Nat.le_refl k))
  have hspent : d'.failures.toNat = d'.retries.toNat := by rw [hd'.failures, hd'.retries, hretries]
  rw [← Nat.succ_add_eq_add_succ, hrun, run_succ, if_neg hlast,
    countFailure?_of_eq hspent (hd'.retries ▸ hcountable), hd'.url, hd'.retries]

/-- No number of failures is larger than the largest one: with so many retries dialing has no outcome as long as no
    probe is ready. -/
theorem run_of_largest (hlargest : d.retries.toNat = UInt32.size - 1)
    (hfailed : ∀ i < probes, (probe ((retried probe pause d.backoffMs)^[i] w)).1 = false) :
    (d.run probe pause probes w).1 = none := by
  induction probes generalizing d w with
  | zero => rfl
  | succ probes ih =>
    have hfirst : ¬(probe w).1 = true := Bool.eq_false_iff.mp (hfailed 0 (Nat.succ_pos probes))
    rw [run_succ, if_neg hfirst]
    by_cases hcountable : d.failures.toNat + 1 < UInt32.size
    · have hwithin : ¬d.retries.toNat ≤ d.failures.toNat := by omega
      rw [(countFailure?_eq hcountable).1, if_neg hwithin]
      exact ih hlargest fun i hi => hfailed (i + 1) (Nat.succ_lt_succ hi)
    · rw [countFailure?, if_neg hcountable]

end
end Dialing

/-! ### A world that keeps a log -/

theorem intersperse_concat {α : Type} (sep x : α) {xs : List α} (hxs : xs ≠ []) :
    (xs ++ [x]).intersperse sep = xs.intersperse sep ++ [sep, x] := by
  induction xs with
  | nil => exact absurd rfl hxs
  | cons y xs ih =>
    cases xs with
    | nil => rfl
    | cons z xs => simpa using ih (List.cons_ne_nil z xs)

/-- What dialing does to the world. -/
inductive DialEvent where
  | probed (ready : Bool)
  | paused (milliseconds : Nat)
deriving DecidableEq, Repr

namespace DialEvent

/-- Whether an event is a probe. -/
def isProbe : DialEvent → Bool
  | probed _ => true
  | paused _ => false

/-- Whether an event is a pause. -/
def isPause : DialEvent → Bool
  | probed _ => false
  | paused _ => true

/-- A probe of a server whose probes have the given outcomes one after the other. -/
def answering (outcomes : Nat → Bool) : StateM (List DialEvent) Bool := fun log =>
  let ready := outcomes (log.countP isProbe)
  (ready, log ++ [probed ready])

/-- A pause that is noted. -/
def noting (milliseconds : Nat) : StateM (List DialEvent) Unit := fun log => ((), log ++ [paused milliseconds])

/-- The first probes, with a pause between one and the next. -/
def contacts (outcomes : Nat → Bool) (backoffMs probes : Nat) : List DialEvent :=
  ((List.range probes).map fun i => probed (outcomes i)).intersperse (paused backoffMs)

variable {outcomes : Nat → Bool} {backoffMs k : Nat}

theorem contacts_succ_succ : contacts outcomes backoffMs (k + 2) =
    contacts outcomes backoffMs (k + 1) ++ [paused backoffMs, probed (outcomes (k + 1))] := by
  have hne : (List.range (k + 1)).map (fun i => probed (outcomes i)) ≠ [] := by simp
  rw [contacts, List.range_succ, List.map_append]
  exact intersperse_concat _ _ hne

theorem countP_isProbe_contacts : (contacts outcomes backoffMs (k + 1)).countP isProbe = k + 1 := by
  induction k with
  | zero => rfl
  | succ k ih =>
    rw [contacts_succ_succ, List.countP_append, ih]
    rfl

theorem countP_isPause_contacts : (contacts outcomes backoffMs (k + 1)).countP isPause = k := by
  induction k with
  | zero => rfl
  | succ k ih =>
    rw [contacts_succ_succ, List.countP_append, ih]
    rfl

/-- After some failed rounds the next probe has the next outcome. -/
theorem answering_retried : answering outcomes ((Dialing.retried (answering outcomes) noting backoffMs)^[k] []) =
    (outcomes k, contacts outcomes backoffMs (k + 1)) := by
  induction k with
  | zero => rfl
  | succ k ih =>
    rw [Function.iterate_succ_apply', Dialing.retried, ih, noting, answering]
    have hprobes : (contacts outcomes backoffMs (k + 1) ++ [paused backoffMs]).countP isProbe = k + 1 := by
      rw [List.countP_append, countP_isProbe_contacts]
      rfl
    rw [hprobes, contacts_succ_succ, List.append_assoc]
    rfl

end DialEvent

open DialEvent

/-- What comes of dialing a server whose probes have the given outcomes, and what was done until then. -/
structure Dialed (outcomes : Nat → Bool) (url : String) (retries backoffMs : Nat) (result : Except PluginError Unit)
    (log : List DialEvent) : Prop where
  ok_iff : result = .ok () ↔ ∃ k ≤ retries, outcomes k = true
  ready : ∀ k ≤ retries, outcomes k = true → (∀ i < k, outcomes i = false) →
    log = contacts outcomes backoffMs (k + 1) ∧ log.countP isProbe = k + 1 ∧ log.countP isPause = k
  unready : (∀ k ≤ retries, outcomes k = false) → result = .error (.unreachable url retries) ∧
    log = contacts outcomes backoffMs (retries + 1) ∧ log.countP isProbe = retries + 1 ∧ log.countP isPause = retries

variable {outcomes : Nat → Bool} {url : String} {retries backoffMs k : Nat}

theorem Dialed.of_ready (hk : k ≤ retries) (hready : outcomes k = true) (hfailed : ∀ i < k, outcomes i = false) :
    Dialed outcomes url retries backoffMs (.ok ()) (contacts outcomes backoffMs (k + 1)) where
  ok_iff := iff_of_true rfl ⟨k, hk, hready⟩
  ready j _ hj hbefore := by
    have heq : j = k := by
      rcases Nat.lt_trichotomy j k with hlt | heq | hlt
      · exact absurd hj (by simp [hfailed j hlt])
      · exact heq
      · exact absurd hready (by simp [hbefore k hlt])
    rw [heq]
    exact ⟨rfl, countP_isProbe_contacts, countP_isPause_contacts⟩
  unready hnone := absurd hready (by simp [hnone k hk])

theorem Dialed.of_unready (hfailed : ∀ k ≤ retries, outcomes k = false) :
    Dialed outcomes url retries backoffMs (.error (.unreachable url retries))
      (contacts outcomes backoffMs (retries + 1)) where
  ok_iff := iff_of_false nofun fun ⟨k, hk, hready⟩ => absurd hready (by simp [hfailed k hk])
  ready k hk hready _ := absurd hready (by simp [hfailed k hk])
  unready _ := ⟨rfl, rfl, countP_isProbe_contacts, countP_isPause_contacts⟩

/-- Within the retries there is a first ready probe, or none. -/
theorem exists_first_ready (outcomes : Nat → Bool) (retries : Nat) :
    (∃ k ≤ retries, outcomes k = true ∧ ∀ i < k, outcomes i = false) ∨ ∀ k ≤ retries, outcomes k = false := by
  by_cases h : ∃ k, k ≤ retries ∧ outcomes k = true
  · obtain ⟨hk, hready⟩ := Nat.find_spec h
    refine .inl ⟨Nat.find h, hk, hready, fun i hi => Bool.eq_false_iff.mpr fun hi' => ?_⟩
    exact Nat.find_min h hi ⟨(Nat.le_of_lt hi).trans hk, hi'⟩
  · exact .inr fun k hk => Bool.eq_false_iff.mpr fun hready => h ⟨k, hk, hready⟩

namespace Dialing
variable {outcomes : Nat → Bool} {url : String} {retries : UInt32} {backoffMs k probes : Nat}

theorem run_noted_of_ready (hretries : k ≤ retries.toNat) (hprobes : k < probes) (hready : outcomes k = true)
    (hfailed : ∀ i < k, outcomes i = false) :
    run (answering outcomes) noting probes { url, retries, backoffMs } [] =
      (some (.ok ()), contacts outcomes backoffMs (k + 1)) := by
  have hrun := run_of_ready (answering outcomes) noting (d := { url, retries, backoffMs }) (w := [])
    ((Nat.zero_add k).le.trans hretries) hprobes
  simp only [answering_retried] at hrun
  exact hrun hready hfailed

theorem run_noted_of_unready (hretries : retries.toNat < UInt32.size - 1) (hprobes : retries.toNat < probes)
    (hfailed : ∀ i ≤ retries.toNat, outcomes i = false) :
    run (answering outcomes) noting probes { url, retries, backoffMs } [] =
      (some (.error (.unreachable url retries.toNat)), contacts outcomes backoffMs (retries.toNat + 1)) := by
  have hrun := run_of_unready (answering outcomes) noting (d := { url, retries, backoffMs }) (w := [])
    (Nat.zero_add retries.toNat) hretries hprobes
  simp only [answering_retried] at hrun
  exact hrun hfailed

theorem exists_run_noted (outcomes : Nat → Bool) (url : String) (backoffMs : Nat)
    (hretries : retries.toNat < UInt32.size - 1) :
    ∃ result log,
      (∀ probes, retries.toNat < probes →
        run (answering outcomes) noting probes { url, retries, backoffMs } [] = (some result, log)) ∧
      Dialed outcomes url retries.toNat backoffMs result log := by
  rcases exists_first_ready outcomes retries.toNat with ⟨k, hk, hready, hfailed⟩ | hfailed
  · exact ⟨_, _, fun probes hprobes => run_noted_of_ready hk (hk.trans_lt hprobes) hready hfailed,
      .of_ready hk hready hfailed⟩
  · exact ⟨_, _, fun probes hprobes => run_noted_of_unready hretries hprobes hfailed, .of_unready hfailed⟩

end Dialing
end Intendant

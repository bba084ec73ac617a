import Intendant.Proofs.Graph.Outcome

/-! # Costs without rounding

Where adding up costs keeps their order, a trace costs no more than the score it stands for, and along any walk to the
goal the first vertex that is not settled waits with a score no greater than the cost of the walk so far
(`Frontier.waiting_on_walk`). -/

namespace Intendant

/-- Adding keeps the order of costs, and a score covers the price it was charged. -/
class Cost.Unrounded (κ : Type) [Cost κ] extends Cost.Lawful κ where
  add_atMost : ∀ {a b c : κ}, Sound a → Sound b → Sound c → Cost.AtMost a b → Cost.AtMost (Cost.add a c) (Cost.add b c)
  add_atMost_of_charged : ∀ {a b c : κ}, Charged a c b → Cost.AtMost (Cost.add a c) b

namespace Search
open Cost
variable {ν κ : Type} [Cost κ] [Unrounded κ] {g : Graph ν κ} {mode : CostMode} {estimate : ν → κ} {start goal v : Nat}
  {q : Progress κ} {es : List (Edge κ)} {s : κ}

theorem Traced.total_atMost (hpay : Payable g mode) (hq : Consistent g mode start q)
    (h : Traced g mode start q v es s) : AtMost (total mode es) s := by
  induction h with
  | start => exact .refl _
  | @via u es e r s h he _ hs hc ih =>
    have hes := sound_total hpay h.walk Lawful.sound_zero
    have hr := hq.sound hpay h.score
    have he := hpay u e he
    rw [total_concat]
    exact Lawful.atMost_trans (Lawful.sound_add hes he) (Lawful.sound_add hr he) (hq.sound hpay hs)
      (Unrounded.add_atMost hes hr he ih) (Unrounded.add_atMost_of_charged hc)

/-- A walk over a vertex that waits, with a score no greater than the cost of the walk up to it. -/
def WaitsOn (g : Graph ν κ) (mode : CostMode) (estimate : ν → κ) (start : Nat) (q : Progress κ) (fs : List (Edge κ)) :
    Prop :=
  ∃ ps qs n s, fs = ps ++ qs ∧ g.Walk start ps n ∧ n ≠ start ∧ q.score? n = some s ∧ Waiting g estimate q n s ∧
    AtMost s (total mode ps)

section
variable {ps qs : List (Edge κ)}

theorem Frontier.waitsOn (h : Frontier g mode estimate start goal none q) (hps : g.Walk start ps v)
    (hs : q.score? v = some s) (hwaiting : Waiting g estimate q v s) (hle : AtMost s (total mode ps)) :
    WaitsOn g mode estimate start q (ps ++ qs) := by
  obtain ⟨value, hvalue, hmem⟩ := hwaiting
  exact ⟨ps, qs, v, s, rfl, hps, (h.entry _ _ hmem).1, hs, ⟨value, hvalue, hmem⟩, hle⟩

/-- Behind a vertex with such a score a walk to the goal meets one that waits: settled ones hand the score on. -/
theorem Frontier.waitsOn_of_score (hpay : Payable g mode) (h : Frontier g mode estimate start goal none q)
    (hgoal : goal < g.size) (hps : g.Walk start ps v) (hqs : g.Walk v qs goal) (hs : q.score? v = some s)
    (hle : AtMost s (total mode ps)) : WaitsOn g mode estimate start q (ps ++ qs) := by
  induction qs generalizing v ps s with
  | nil =>
    cases hqs
    rcases h.closed goal s hs (Option.some_ne_none _).symm with hwaiting | ⟨hne, -⟩
    · exact h.waitsOn hps hs hwaiting hle
    · exact absurd rfl hne
  | cons e qs ih =>
    rcases h.closed v s hs (Option.some_ne_none _).symm with hwaiting | ⟨-, hsettled⟩
    · exact h.waitsOn hps hs hwaiting hle
    · have ht : e.target < g.size := by
        cases qs with
        | nil => exact hqs.2 ▸ hgoal
        | cons f qs => exact Graph.lt_size_of_mem_successors hqs.2.1
      obtain ⟨r, hr, hrle⟩ := hsettled e hqs.1 ht
      have hps_sound := sound_total hpay hps Lawful.sound_zero
      have hs_sound := h.sound hpay hs
      have he := hpay v e hqs.1
      rw [List.append_cons]
      refine ih (hps.concat hqs.1) hqs.2 hr ?_
      rw [total_concat]
      exact Lawful.atMost_trans (h.sound hpay hr) (Lawful.sound_add hs_sound he) (Lawful.sound_add hps_sound he) hrle
        (Unrounded.add_atMost hs_sound hps_sound he hle)

end

/-- Every walk from the start to the goal leads over a vertex that waits. -/
theorem Frontier.waiting_on_walk (hpay : Payable g mode) (h : Frontier g mode estimate start goal none q)
    (hgoal : goal < g.size) {fs : List (Edge κ)} (hw : g.Walk start fs goal) : WaitsOn g mode estimate start q fs := by
  have hstart : g.Walk start [] start := rfl
  exact h.waitsOn_of_score hpay hgoal hstart hw h.score_start (.refl _)

end Search
end Intendant

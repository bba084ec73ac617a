import Intendant.Proofs.Graph.Traced

/-! # The invariant of a search

What holds of the progress of a search between two rounds. `Consistent` is about scores and arrivals: every score
is traced back to the start, and it is the total of a walk without repetition. `Frontier` adds the open set: a
vertex with a score waits with that score, or the edges out of it are followed. While a vertex is being expanded,
it is exempt from this. -/

namespace Intendant.Search
open Cost
open Intendant.Graph (visited visited_concat)
variable {ν κ : Type} [Cost κ] [Lawful κ]

/-- No edge lowers a score. -/
def Payable (g : Graph ν κ) (mode : CostMode) : Prop :=
  ∀ u, ∀ e ∈ g.successors u, Lawful.Sound (edgeCost mode e)

/-- The totals of the walks from the start that meet no vertex twice. -/
def simpleTotals (g : Graph ν κ) (mode : CostMode) (start : Nat) : Set κ :=
  {s | ∃ es v, g.Walk start es v ∧ (visited start es).Nodup ∧ total mode es = s}

/-- Scores and arrivals fit together. The walk that gave a vertex its score need not be its trace any more. -/
structure Consistent (g : Graph ν κ) (mode : CostMode) (start : Nat) (p : Progress κ) : Prop where
  scores_size : p.scores.size = g.size
  arrivals_size : p.arrivals.size = g.size
  score_start : p.score? start = some zero
  traced : ∀ v s, p.score? v = some s → ∃ es, Traced g mode start p v es s
  history : ∀ v s, p.score? v = some s → ∃ es, g.Walk start es v ∧ (visited start es).Nodup ∧ total mode es = s ∧
    ∀ x ∈ visited start es, ∃ r, p.score? x = some r ∧ AtMost r s

section
variable {g : Graph ν κ} {mode : CostMode} {start u v : Nat} {p : Progress κ} {e : Edge κ} {r s k : κ}

theorem payable_of_sound (h : mode = .utility → ∀ u, ∀ e ∈ g.successors u, Lawful.Sound e.utility) :
    Payable g mode := by
  intro u e he
  cases mode with
  | utility => exact h rfl u e he
  | hops => exact Lawful.sound_one

theorem sound_total (hpay : Payable g mode) {es : List (Edge κ)} (h : g.Walk u es v) {s : κ}
    (hs : Lawful.Sound s) : Lawful.Sound (es.foldl (fun s e => add s (edgeCost mode e)) s) := by
  induction es generalizing u s with
  | nil => exact hs
  | cons e es ih => exact ih h.2 (Lawful.sound_add hs (hpay u e h.1))

namespace Consistent

theorem sound (hpay : Payable g mode) (h : Consistent g mode start p) (hs : p.score? v = some s) :
    Lawful.Sound s := by
  obtain ⟨es, hw, -, rfl, -⟩ := h.history v s hs
  exact sound_total hpay hw Lawful.sound_zero

/-- The walk that gave a vertex its score does not meet a vertex whose score is improved from there. -/
theorem history_concat (hpay : Payable g mode) (h : Consistent g mode start p) (hu : p.score? u = some r)
    (he : e ∈ g.successors u) (himp : p.improves e.target (add r (edgeCost mode e)) = true) :
    ∃ es, g.Walk start es e.target ∧ (visited start es).Nodup ∧ total mode es = add r (edgeCost mode e) ∧
      ∀ x ∈ visited start es, x = e.target ∨ ∃ q, p.score? x = some q ∧ AtMost q (add r (edgeCost mode e)) := by
  obtain ⟨es, hw, hn, rfl, hle⟩ := h.history u r hu
  have hr := h.sound hpay hu
  have hsum := Lawful.sound_add hr (hpay u e he)
  have hgrow : ∀ x ∈ visited start es, ∃ q, p.score? x = some q ∧ AtMost q (add (total mode es) (edgeCost mode e)) := by
    intro x hx
    obtain ⟨q, hq, hqr⟩ := hle x hx
    exact ⟨q, hq, Lawful.atMost_trans (h.sound hpay hq) hr hsum hqr (Lawful.atMost_add hr (hpay u e he))⟩
  -- All scores on the walk are at most the new one, so none of them is improved by it.
  have hnot : e.target ∉ visited start es := by
    intro hmem
    obtain ⟨q, hq, hqs⟩ := hgrow _ hmem
    exact hqs.not_less (Progress.improves_iff.mp himp q hq)
  refine ⟨es ++ [e], hw.concat he, ?_, total_concat mode es e, ?_⟩
  · rw [visited_concat]
    exact List.nodup_append'.mpr ⟨hn, List.nodup_singleton _, List.disjoint_singleton.mpr hnot⟩
  · intro x hx
    rw [visited_concat, List.mem_append, List.mem_singleton] at hx
    exact hx.symm.imp_right (hgrow x)

theorem mem_simpleTotals (hpay : Payable g mode) (h : Consistent g mode start p) (hu : p.score? u = some r)
    (he : e ∈ g.successors u) (himp : p.improves e.target (add r (edgeCost mode e)) = true) :
    add r (edgeCost mode e) ∈ simpleTotals g mode start := by
  obtain ⟨es, hw, hn, htotal, -⟩ := h.history_concat hpay hu he himp
  exact ⟨es, e.target, hw, hn, htotal⟩

theorem target_ne_start (hpay : Payable g mode) (h : Consistent g mode start p) (hu : p.score? u = some r)
    (he : e ∈ g.successors u) (himp : p.improves e.target (add r (edgeCost mode e)) = true) : e.target ≠ start := by
  intro heq
  have hless := Progress.improves_iff.mp himp zero (heq ▸ h.score_start)
  exact AtMost.not_less (Lawful.zero_atMost (Lawful.sound_add (h.sound hpay hu) (hpay u e he))) hless

theorem target_ne (hpay : Payable g mode) (h : Consistent g mode start p) (hu : p.score? u = some r)
    (he : e ∈ g.successors u) (himp : p.improves e.target (add r (edgeCost mode e)) = true) : e.target ≠ u := by
  intro heq
  have hless := Progress.improves_iff.mp himp r (heq ▸ hu)
  exact AtMost.not_less (Lawful.atMost_add (h.sound hpay hu) (hpay u e he)) hless

/-- A bound on a score is kept when some vertex is reached with a better score. -/
theorem atMost_reach (hpay : Payable g mode) (h : Consistent g mode start p) (hv : v < p.scores.size)
    (hr : Lawful.Sound r) (himp : p.improves v r = true) {x : Nat} {q : κ} {a : Arrival} (hq : p.score? x = some q)
    (hle : AtMost q s) (hs : Lawful.Sound s) : ∃ q', (p.reach v r k a).score? x = some q' ∧ AtMost q' s := by
  by_cases hx : x = v
  · subst hx
    have hless : AtMost r q := .of_less (Progress.improves_iff.mp himp q hq)
    exact ⟨r, Progress.score?_reach_self hv, Lawful.atMost_trans hr (h.sound hpay hq) hs hless hle⟩
  · exact ⟨q, (Progress.score?_reach_of_ne hx).trans hq, hle⟩

/-- The reached vertex is traced over the new edge, and the score of any other vertex is still traced. -/
theorem traced_reach (hpay : Payable g mode) (h : Consistent g mode start p) (hu : p.score? u = some r)
    (he : e ∈ g.successors u) (ht : e.target < g.size)
    (himp : p.improves e.target (add r (edgeCost mode e)) = true)
    (hs : (p.reach e.target (add r (edgeCost mode e)) k (.via u e.action)).score? v = some s) :
    ∃ es, Traced g mode start (p.reach e.target (add r (edgeCost mode e)) k (.via u e.action)) v es s := by
  have hscores : e.target < p.scores.size := h.scores_size.symm ▸ ht
  have harrivals : e.target < p.arrivals.size := h.arrivals_size.symm ▸ ht
  have hsound : ∀ x q, p.score? x = some q → Lawful.Sound q := fun _ _ hq => h.sound hpay hq
  obtain ⟨es, hes⟩ := h.traced u r hu
  by_cases hv : v = e.target
  · rw [hv, Progress.score?_reach_self hscores] at hs
    cases hs
    exact ⟨es ++ [e], hv ▸ hes.reach_self hsound hscores harrivals he (hpay u e he) himp⟩
  · rw [Progress.score?_reach_of_ne hv] at hs
    obtain ⟨fs, hfs⟩ := h.traced v s hs
    obtain ⟨fs', s', hfs', -⟩ := hes.reach (k := k) hsound hscores harrivals he (hpay u e he) himp hfs
    have hs' := hfs'.score
    rw [Progress.score?_reach_of_ne hv, hs] at hs'
    cases hs'
    exact ⟨fs', hfs'⟩

/-- Scores on the walk that gave a score only fall, so they stay below that score. -/
theorem history_reach (hpay : Payable g mode) (h : Consistent g mode start p) (hu : p.score? u = some r)
    (he : e ∈ g.successors u) (ht : e.target < g.size)
    (himp : p.improves e.target (add r (edgeCost mode e)) = true) {a : Arrival}
    (hs : (p.reach e.target (add r (edgeCost mode e)) k a).score? v = some s) :
    ∃ es, g.Walk start es v ∧ (visited start es).Nodup ∧ total mode es = s ∧ ∀ x ∈ visited start es,
      ∃ q, (p.reach e.target (add r (edgeCost mode e)) k a).score? x = some q ∧ AtMost q s := by
  have hscores : e.target < p.scores.size := h.scores_size.symm ▸ ht
  have hsum := Lawful.sound_add (h.sound hpay hu) (hpay u e he)
  by_cases hv : v = e.target
  · rw [hv, Progress.score?_reach_self hscores] at hs
    cases hs
    obtain ⟨fs, hw, hn, htotal, hle⟩ := h.history_concat hpay hu he himp
    refine ⟨fs, hv ▸ hw, hn, htotal, fun x hx => ?_⟩
    rcases hle x hx with rfl | ⟨q, hq, hqs⟩
    · exact ⟨_, Progress.score?_reach_self hscores, .refl _⟩
    · exact h.atMost_reach hpay hscores hsum himp hq hqs hsum
  · rw [Progress.score?_reach_of_ne hv] at hs
    obtain ⟨fs, hw, hn, htotal, hle⟩ := h.history v s hs
    refine ⟨fs, hw, hn, htotal, fun x hx => ?_⟩
    obtain ⟨q, hq, hqs⟩ := hle x hx
    exact h.atMost_reach hpay hscores hsum himp hq hqs (h.sound hpay hs)

theorem reach (hpay : Payable g mode) (h : Consistent g mode start p) (hu : p.score? u = some r)
    (he : e ∈ g.successors u) (ht : e.target < g.size)
    (himp : p.improves e.target (add r (edgeCost mode e)) = true) :
    Consistent g mode start (p.reach e.target (add r (edgeCost mode e)) k (.via u e.action)) where
  scores_size := by simp [Progress.reach, h.scores_size]
  arrivals_size := by simp [Progress.reach, h.arrivals_size]
  score_start := by
    rw [Progress.score?_reach_of_ne (h.target_ne_start hpay hu he himp).symm, h.score_start]
  traced _ _ hs := h.traced_reach hpay hu he ht himp hs
  history _ _ hs := h.history_reach hpay hu he ht himp hs

end Consistent
end
end Intendant.Search

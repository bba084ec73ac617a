import Intendant.Proofs.Graph.Progress

/-! # Traces

The arrivals of a search lead back from a vertex to the start. `Traced` says so together with the scores: every
step of a trace was charged. Scores do not fall along a trace, so a vertex with an improved score lies on no trace
of the vertex it is reached from, and therefore the traces stay free of circles while arrivals are overwritten
(`Traced.reach`). -/

namespace Intendant.Search
open Cost
open Intendant.Graph (visited visited_concat)
variable {ν κ : Type} [Cost κ] [Lawful κ]

/-- The arrivals lead back over the edges from a vertex with a score to the start. -/
inductive Traced (g : Graph ν κ) (mode : CostMode) (start : Nat) (p : Progress κ) : Nat → List (Edge κ) → κ → Prop
  | start (hs : p.score? start = some zero) (ha : p.arrival? start = some .start) : Traced g mode start p start [] zero
  | via {u : Nat} {es : List (Edge κ)} {e : Edge κ} {r s : κ} (h : Traced g mode start p u es r)
      (he : e ∈ g.successors u) (ha : p.arrival? e.target = some (.via u e.action))
      (hs : p.score? e.target = some s) (hc : Lawful.Charged r (edgeCost mode e) s) :
      Traced g mode start p e.target (es ++ [e]) s

namespace Traced
variable {g : Graph ν κ} {mode : CostMode} {start u v t : Nat} {p : Progress κ} {es es' : List (Edge κ)}
  {r s s' : κ}

theorem score (h : Traced g mode start p v es s) : p.score? v = some s := by
  cases h with
  | start hs _ => exact hs
  | via _ _ _ hs _ => exact hs

theorem walk (h : Traced g mode start p v es s) : g.Walk start es v := by
  induction h with
  | start => rfl
  | via _ he _ _ _ ih => exact ih.concat he

theorem length_eq (h : Traced g mode start p v es s) (h' : Traced g mode start p v es' s') :
    es.length = es'.length := by
  induction h generalizing es' s' with
  | start _ ha =>
    generalize hv : start = v at h'
    cases h' with
    | start => rfl
    | via _ _ ha' => rw [← hv, ha] at ha'; cases ha'
  | @via u es e r s _ _ ha _ _ ih =>
    generalize hv : e.target = v at h'
    cases h' with
    | start _ ha' => rw [hv, ha'] at ha; cases ha
    | @via w _ _ _ _ h' _ ha' =>
      obtain ⟨rfl, -⟩ : w = u ∧ _ := by simpa [hv, ha'] using ha
      simp [ih h']

/-- Every vertex on a trace has a trace that is no longer. -/
theorem of_mem (h : Traced g mode start p v es s) (ht : t ∈ visited start es) :
    ∃ fs r, Traced g mode start p t fs r ∧ fs.length ≤ es.length := by
  induction h with
  | start hs ha =>
    obtain rfl : t = start := by simpa [visited] using ht
    exact ⟨[], zero, .start hs ha, le_rfl⟩
  | @via u es e r s h he ha hs hc ih =>
    rw [visited_concat, List.mem_append, List.mem_singleton] at ht
    rcases ht with ht | rfl
    · obtain ⟨fs, r', hfs, hlen⟩ := ih ht
      exact ⟨fs, r', hfs, hlen.trans (by simp)⟩
    · exact ⟨es ++ [e], s, .via h he ha hs hc, le_rfl⟩

/-- No vertex is met twice: it would have traces of two lengths. -/
theorem nodup (h : Traced g mode start p v es s) : (visited start es).Nodup := by
  induction h with
  | start => simp [visited]
  | @via u es e r s h he ha hs hc ih =>
    rw [visited_concat]
    refine List.nodup_append'.mpr ⟨ih, List.nodup_singleton _, List.disjoint_singleton.mpr fun hmem => ?_⟩
    obtain ⟨fs, r', hfs, hlen⟩ := h.of_mem hmem
    have heq := hfs.length_eq (.via h he ha hs hc)
    rw [List.length_append, List.length_singleton] at heq
    omega

theorem path?_eq (h : Traced g mode start p v es s) {bound : Nat} (hb : es.length < bound) :
    path? p.arrivals bound v = some (visited start es, es.map (·.action)) := by
  induction h generalizing bound with
  | start _ ha =>
    obtain ⟨bound, rfl⟩ := Nat.exists_eq_succ_of_ne_zero (Nat.ne_of_gt hb)
    have hget : p.arrivals[start]? = some (some .start) := Option.join_eq_some_iff.mp ha
    simp [path?, hget, visited]
  | @via u es e r s _ _ ha _ _ ih =>
    obtain ⟨bound, rfl⟩ := Nat.exists_eq_succ_of_ne_zero (Nat.ne_of_gt (Nat.zero_lt_of_lt hb))
    have hget : p.arrivals[e.target]? = some (some (.via u e.action)) := Option.join_eq_some_iff.mp ha
    rw [List.length_append, List.length_singleton] at hb
    simp [path?, hget, ih (Nat.lt_of_succ_lt_succ hb), visited]

/-- The vertices on a trace score at most what the last one does. -/
theorem atMost (h : Traced g mode start p v es s) (hsound : ∀ x r, p.score? x = some r → Lawful.Sound r)
    (ht : t ∈ visited start es) : ∃ r, p.score? t = some r ∧ AtMost r s := by
  induction h with
  | start hs _ =>
    obtain rfl : t = start := by simpa [visited] using ht
    exact ⟨zero, hs, .refl _⟩
  | @via u es e r s h _ _ hs hc ih =>
    rw [visited_concat, List.mem_append, List.mem_singleton] at ht
    rcases ht with ht | rfl
    · obtain ⟨q, hq, hle⟩ := ih ht
      exact ⟨q, hq, Lawful.atMost_trans (hsound _ _ hq) (hsound _ _ h.score) (hsound _ _ hs) hle
        (Lawful.atMost_of_charged hc)⟩
    · exact ⟨s, hs, .refl _⟩

/-! ### Reaching a vertex -/

variable {k : κ} {a : Arrival}

theorem reach_of_not_mem (h : Traced g mode start p v es s) (ht : t ∉ visited start es) :
    Traced g mode start (p.reach t s' k a) v es s := by
  induction h with
  | start hs ha =>
    have hne : start ≠ t := fun h => ht (h ▸ List.mem_cons_self)
    exact .start ((Progress.score?_reach_of_ne hne).trans hs) ((Progress.arrival?_reach_of_ne hne).trans ha)
  | @via u es e r s _ he ha hs hc ih =>
    rw [visited_concat, List.mem_append, List.mem_singleton, not_or] at ht
    have hne := Ne.symm ht.2
    exact .via (ih ht.1) he ((Progress.arrival?_reach_of_ne hne).trans ha)
      ((Progress.score?_reach_of_ne hne).trans hs) hc

section
variable {e : Edge κ} (hsound : ∀ x r, p.score? x = some r → Lawful.Sound r) (hscores : e.target < p.scores.size)
  (harrivals : e.target < p.arrivals.size) (hu : Traced g mode start p u es r) (he : e ∈ g.successors u)
  (hcost : Lawful.Sound (edgeCost mode e)) (himp : p.improves e.target (add r (edgeCost mode e)) = true)
include hsound hu hcost himp

/-- A vertex before the reached one scores less than the new score, which would then be no improvement. -/
theorem target_not_mem {fs : List (Edge κ)} (h : Traced g mode start p v fs s) (hle : AtMost s r) :
    e.target ∉ visited start fs := by
  intro hmem
  have hr := hsound _ _ hu.score
  have hs := hsound _ _ h.score
  obtain ⟨q, hq, hqs⟩ := h.atMost hsound hmem
  refine AtMost.not_less ?_ (Progress.improves_iff.mp himp q hq)
  exact Lawful.atMost_trans (hsound _ _ hq) hr (Lawful.sound_add hr hcost)
    (Lawful.atMost_trans (hsound _ _ hq) hs hr hqs hle) (Lawful.atMost_add hr hcost)

include hscores harrivals he

theorem reach_self :
    Traced g mode start (p.reach e.target (add r (edgeCost mode e)) k (.via u e.action)) e.target (es ++ [e])
      (add r (edgeCost mode e)) :=
  .via (hu.reach_of_not_mem (hu.target_not_mem hsound hcost himp hu (.refl r))) he
    (Progress.arrival?_reach_self harrivals) (Progress.score?_reach_self hscores)
    (Lawful.charged_add (hsound _ _ hu.score) hcost)

/-- Reaching a vertex with a better score leaves a trace to every vertex: the traces that met it go over the new
    one, the others stay. -/
theorem reach {fs : List (Edge κ)} (h : Traced g mode start p v fs s) :
    ∃ fs' s', Traced g mode start (p.reach e.target (add r (edgeCost mode e)) k (.via u e.action)) v fs' s' ∧
      AtMost s' s := by
  have hr := hsound _ _ hu.score
  have hnew := hu.reach_self (k := k) hsound hscores harrivals he hcost himp
  induction h with
  | start hs ha =>
    have hne : start ≠ e.target := fun h =>
      hu.target_not_mem hsound hcost himp (.start hs ha) (Lawful.zero_atMost hr) (by simp [h, visited])
    exact ⟨[], zero, .start ((Progress.score?_reach_of_ne hne).trans hs) ((Progress.arrival?_reach_of_ne hne).trans ha),
      .refl _⟩
  | @via x fs f q s hx hf ha hs hc ih =>
    by_cases hv : f.target = e.target
    · rw [hv] at hs ⊢
      exact ⟨_, _, hnew, .of_less (Progress.improves_iff.mp himp s hs)⟩
    · obtain ⟨fs', q', hfs', hle⟩ := ih
      have hq' : Lawful.Sound q' := by
        have hscore := hfs'.score
        by_cases hx' : x = e.target
        · rw [hx', Progress.score?_reach_self hscores] at hscore
          cases hscore
          exact Lawful.sound_add hr hcost
        · rw [Progress.score?_reach_of_ne hx'] at hscore
          exact hsound _ _ hscore
      exact ⟨fs' ++ [f], s, .via hfs' hf ((Progress.arrival?_reach_of_ne hv).trans ha)
        ((Progress.score?_reach_of_ne hv).trans hs)
        (Lawful.charged_of_atMost (hsound _ _ hx.score) hq' (hsound _ _ hs) hle hc), .refl s⟩

end
end Traced
end Intendant.Search

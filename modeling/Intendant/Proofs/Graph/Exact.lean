import Intendant.Proofs.Graph.Unrounded

/-! # Cheapest paths in exact costs

Over the real numbers the same search bounds what it finds. When the goal is taken, its entry comes before every
other one, and on any walk to the goal some vertex waits with a score no greater than the cost of the walk so far. So
the path costs no more than that, estimates included. -/

namespace Intendant.Cost

noncomputable instance : Cost ℝ where
  zero := 0
  one := 1
  add a b := a + b
  less a b := decide (a < b)
  notAfter a b := decide (a ≤ b)

theorem exact_atMost {a b : ℝ} : AtMost a b ↔ a ≤ b := by
  rw [← not_lt]
  exact decide_eq_false_iff_not

instance : Strict ℝ where
  less_irrefl a := decide_eq_false (lt_irrefl a)
  less_trans h h' := decide_eq_true ((of_decide_eq_true h).trans (of_decide_eq_true h'))

instance : Unrounded ℝ where
  Sound a := 0 ≤ a
  Charged a c b := 0 ≤ c ∧ a + c ≤ b
  sound_zero := le_refl (0 : ℝ)
  sound_one := zero_le_one (α := ℝ)
  sound_add := add_nonneg
  zero_atMost := exact_atMost.mpr
  atMost_trans _ _ _ h h' := exact_atMost.mpr ((exact_atMost.mp h).trans (exact_atMost.mp h'))
  charged_add _ hc := ⟨hc, le_rfl⟩
  charged_of_atMost _ _ _ h hc := ⟨hc.1, (add_le_add_left (exact_atMost.mp h) _).trans hc.2⟩
  atMost_of_charged h := exact_atMost.mpr ((le_add_of_nonneg_right h.1).trans h.2)
  add_atMost _ _ _ h := exact_atMost.mpr (add_le_add_left (exact_atMost.mp h) _)
  add_atMost_of_charged h := exact_atMost.mpr h.2

instance : Ranked ℝ where
  notAfter_total a b := (le_total a b).imp decide_eq_true decide_eq_true
  notAfter_trans h h' := decide_eq_true ((of_decide_eq_true h).trans (of_decide_eq_true h'))

end Intendant.Cost

namespace Intendant.Search
open Cost
open Intendant.Graph (visited)
variable {ν : Type} {g : Graph ν ℝ} {mode : CostMode} {estimate : ν → ℝ} {start goal v : Nat} {q : Progress ℝ}
  {es : List (Edge ℝ)} {s : ℝ}

theorem total_eq_sum (mode : CostMode) (es : List (Edge ℝ)) : total mode es = (es.map (edgeCost mode)).sum := by
  induction es using List.reverseRecOn with
  | nil => rfl
  | append_singleton es e ih =>
    rw [total_concat, ih, List.map_append, List.sum_append, List.map_singleton, List.sum_singleton]
    rfl

theorem total_utility (es : List (Edge ℝ)) : total .utility es = (es.map (·.utility)).sum := total_eq_sum _ es

theorem total_hops (es : List (Edge ℝ)) : total .hops es = es.length := by
  have hmap : es.map (edgeCost .hops) = es.map fun _ => (1 : ℝ) := rfl
  rw [total_eq_sum, hmap]
  simp

theorem total_append (ps qs : List (Edge ℝ)) : total mode (ps ++ qs) = total mode ps + total mode qs := by
  simp only [total_eq_sum, List.map_append, List.sum_append]

/-- When the goal is taken, its trace costs no more, with the estimate of the goal, than every walk to the goal up to
    some vertex behind the start, with the estimate of that vertex. -/
theorem Frontier.total_trace_le (hpay : Payable g mode) (h : Frontier g mode estimate start goal none q)
    (hordered : q.openSet.Ordered) {k : ℝ} {rest : OpenSet Nat ℝ} (hpop : q.openSet.pop? = some ((goal, k), rest))
    (hes : Traced g mode start q goal es s) {target : ν} (htarget : g.value? goal = some target) {fs : List (Edge ℝ)}
    (hw : g.Walk start fs goal) :
    ∃ ps qs n value, fs = ps ++ qs ∧ g.Walk start ps n ∧ n ≠ start ∧ g.value? n = some value ∧
      total mode es + estimate target ≤ total mode ps + estimate value := by
  have hentries := OpenSet.pop?_eq_some.mp hpop
  have htotal : total mode es ≤ s := exact_atMost.mp (hes.total_atMost hpay h.toConsistent)
  obtain ⟨-, s', s₀, value', hs', hvalue', -, hle, hk⟩ := h.entry k goal (hentries ▸ List.mem_cons_self)
  obtain rfl : s' = s := Option.some.inj (hs'.symm.trans hes.score)
  obtain rfl : value' = target := Option.some.inj (hvalue'.symm.trans htarget)
  obtain ⟨ps, qs, n, r, hfs, hps, hn, -, ⟨value, hvalue, hmem⟩, hr⟩ :=
    h.waiting_on_walk hpay (Graph.lt_size_of_value? htarget) hw
  -- The goal was taken, so what waits on the walk is no better.
  have hfirst : k ≤ r + estimate value := by
    rw [hentries] at hmem
    rcases List.mem_cons.mp hmem with heq | hmem
    · cases heq
      exact le_rfl
    · exact of_decide_eq_true ((hordered.first hpop).2 _ hmem)
  refine ⟨ps, qs, n, value, hfs, hps, hn, hvalue, ?_⟩
  calc total mode es + estimate value' ≤ s' + estimate value' := add_le_add_left htotal _
    _ ≤ s₀ + estimate value' := add_le_add_left (exact_atMost.mp hle) _
    _ = k := hk.symm
    _ ≤ r + estimate value := hfirst
    _ ≤ total mode ps + estimate value := add_le_add_left (exact_atMost.mp hr) _

/-- In exact costs the path that is found costs no more, with the estimate of the goal, than any walk to the goal up to
    some vertex behind the start, with the estimate of that vertex. So it is a cheapest one where the estimate of the
    goal is zero and no estimate exceeds what remains, and without an estimate it has the least utility or the fewest
    hops. -/
theorem within_cost_bound (g : Graph ν ℝ) (start goal : Nat) (mode : CostMode) (estimate : ν → ν → ℝ) {target : ν}
    (hnonneg : mode = .utility → ∀ u, ∀ e ∈ g.successors u, 0 ≤ e.utility) (hne : start ≠ goal)
    (htarget : g.value? goal = some target) (hreach : g.Reaches start goal) :
    ∃ bound path actions es,
      (∀ rounds, bound < rounds → within rounds g start goal mode estimate = .found path actions) ∧
      g.Walk start es goal ∧ path = visited start es ∧ actions = es.map (·.action) ∧
      (∀ fs, g.Walk start fs goal → ∃ ps qs n value, fs = ps ++ qs ∧ g.Walk start ps n ∧ n ≠ start ∧
        g.value? n = some value ∧ total mode es + estimate target target ≤ total mode ps + estimate value target) ∧
      (estimate target target = 0 →
        (∀ n value qs, g.value? n = some value → g.Walk n qs goal → estimate value target ≤ total mode qs) →
        ∀ fs, g.Walk start fs goal → total mode es ≤ total mode fs) ∧
      ((∀ value, estimate value target = 0) → ∀ fs, g.Walk start fs goal →
        (mode = .utility → (es.map (·.utility)).sum ≤ (fs.map (·.utility)).sum) ∧
        (mode = .hops → es.length ≤ fs.length)) := by
  have hpay : Payable g mode := payable_of_sound hnonneg
  have hstart : start < g.size := by
    obtain ⟨es, hes⟩ := hreach
    cases es with
    | nil => exact absurd hes hne
    | cons e es => exact Graph.lt_size_of_mem_successors hes.1
  obtain ⟨q, r, hq, hordered, hend, hwithin⟩ := within_ends hpay estimate hstart htarget hne
  rcases hend with ⟨hpop, -⟩ | ⟨k, rest, hpop, rfl⟩
  · exact absurd hreach (hq.not_reaches hpop (Graph.lt_size_of_value? htarget))
  · obtain ⟨s, hs⟩ := hq.score_of_pop hpop
    obtain ⟨es, hes, hroute⟩ := hq.route_eq hs
    have hbound := fun fs (hw : g.Walk start fs goal) => hq.total_trace_le hpay hordered hpop hes htarget hw
    -- The rest of the walk pays for the estimate of the vertex on it.
    have hcheapest : estimate target target = 0 →
        (∀ n value qs, g.value? n = some value → g.Walk n qs goal → estimate value target ≤ total mode qs) →
        ∀ fs, g.Walk start fs goal → total mode es ≤ total mode fs := by
      intro hzero hestimate fs hw
      obtain ⟨ps, qs, n, value, rfl, hps, -, hvalue, hle⟩ := hbound fs hw
      rw [hzero, add_zero] at hle
      rw [total_append]
      exact hle.trans (add_le_add_right (hestimate n value qs hvalue (hps.rest hw)) _)
    refine ⟨_, _, _, es, fun rounds hr => (hwithin rounds hr).trans hroute, hes.walk, rfl, rfl, hbound, hcheapest, ?_⟩
    intro hzero fs hw
    have hleast := hcheapest (hzero target)
      (fun n value qs _ hqs => hzero value ▸ sound_total hpay hqs Lawful.sound_zero) fs hw
    constructor
    · rintro rfl
      rwa [total_utility, total_utility] at hleast
    · rintro rfl
      rwa [total_hops, total_hops, Nat.cast_le] at hleast

/-- A direct way and a cheaper detour. -/
noncomputable def detour : Graph Nat ℝ :=
  (((((Graph.empty.addVertex 0).addVertex 1).addVertex 2).addEdge 0 1 1 { name := "ride" }).addEdge
    0 2 (1 / 4) { name := "walk" }).addEdge 2 1 (1 / 4) { name := "walk" }

theorem nonneg_detour : ∀ u, ∀ e ∈ detour.successors u, 0 ≤ e.utility := by
  refine Graph.utility_addEdge (Graph.utility_addEdge (Graph.utility_addEdge ?_ ?_) ?_) ?_
  · simp
  all_goals norm_num

theorem within_cost_bound_detour :
    (∀ u, ∀ e ∈ detour.successors u, 0 ≤ e.utility) ∧ ∃ bound path actions es,
      (∀ rounds, bound < rounds → within rounds detour 0 1 .utility (fun _ _ => 0) = .found path actions) ∧
      detour.Walk 0 es 1 ∧ actions = es.map (·.action) ∧ (es.map (·.utility)).sum ≤ 1 / 2 := by
  have hwalk : detour.Walk 0 [⟨2, 1 / 4, { name := "walk" }⟩, ⟨1, 1 / 4, { name := "walk" }⟩] 1 :=
    ⟨by simp [detour, Graph.mem_successors_addEdge], by simp [detour, Graph.mem_successors_addEdge], rfl⟩
  obtain ⟨bound, path, actions, es, hfound, hes, -, hactions, -, -, hleast⟩ :=
    within_cost_bound detour 0 1 .utility (fun _ _ => 0) (fun _ => nonneg_detour) (by decide)
      (show detour.value? 1 = some 1 from rfl) ⟨_, hwalk⟩
  refine ⟨nonneg_detour, bound, path, actions, es, hfound, hes, hactions, ?_⟩
  have hsum := (hleast (fun _ => rfl) _ hwalk).1 rfl
  norm_num at hsum ⊢
  exact hsum

end Intendant.Search

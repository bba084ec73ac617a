import Intendant.Proofs.Graph.Frontier

/-! # The outcome of a search

Every round lowers the potential, so a search ends. It ends with an empty open set, and then everything that
the start reaches has a score, or at the goal, and then the arrivals give a path. -/

namespace Intendant.Search
open Cost
open Intendant.Graph (visited)
variable {ν κ : Type} [Cost κ] {g : Graph ν κ} {mode : CostMode} {estimate : ν → κ} {start goal : Nat}

/-- The last progress of a search and its outcome: no entry is open, or the goal is taken. -/
def Ending (goal : Nat) (q : Progress κ) (r : Route) : Prop :=
  q.openSet.pop? = none ∧ r = .unreachable ∨
    ∃ k rest, q.openSet.pop? = some ((goal, k), rest) ∧ r = q.route goal

/-- A search with an invariant and a measure that every round lowers comes to an end, the same with any number of
    rounds beyond the measure. -/
theorem run_ends {I : Progress κ → Prop} {μ : Progress κ → Nat}
    (hstep : ∀ p u k rest, I p → p.openSet.pop? = some ((u, k), rest) → u ≠ goal →
      I (expand g mode estimate u { p with openSet := rest }) ∧
        μ (expand g mode estimate u { p with openSet := rest }) < μ p)
    {p : Progress κ} (hp : I p) :
    ∃ q r, I q ∧ Ending goal q r ∧ ∀ rounds, μ p < rounds → run g goal mode estimate rounds p = r := by
  induction hμ : μ p using Nat.strong_induction_on generalizing p with
  | _ n ih =>
    subst hμ
    have hpos : ∀ {rounds}, μ p < rounds → ∃ n, rounds = n + 1 ∧ μ p ≤ n := fun hr =>
      ⟨_, (Nat.succ_pred_eq_of_pos (Nat.zero_lt_of_lt hr)).symm, Nat.le_pred_of_lt hr⟩
    match hpop : p.openSet.pop? with
    | none =>
      refine ⟨p, _, hp, .inl ⟨hpop, rfl⟩, fun rounds hr => ?_⟩
      obtain ⟨n, rfl, -⟩ := hpos hr
      simp only [run, hpop]
    | some ((u, k), rest) =>
      by_cases hu : u = goal
      · subst hu
        refine ⟨p, _, hp, .inr ⟨k, rest, hpop, rfl⟩, fun rounds hr => ?_⟩
        obtain ⟨n, rfl, -⟩ := hpos hr
        simp only [run, hpop, if_pos]
      · -- The next round has a smaller measure, whatever is left of the rounds.
        obtain ⟨hnext, hlt⟩ := hstep p u k rest hp hpop hu
        obtain ⟨q, r, hq, hend, hrun⟩ := ih _ hlt hnext rfl
        refine ⟨q, r, hq, hend, fun rounds hr => ?_⟩
        obtain ⟨n, rfl, hn⟩ := hpos hr
        rw [← hrun n (hlt.trans_le hn)]
        simp only [run, hpop, if_neg hu]

/-! ### The totals of walks without repetition -/

/-- A walk without repetition is made of edges of the graph, each used once, and there are only finitely many
    such lists of edges. -/
theorem finite_simpleTotals (g : Graph ν κ) (mode : CostMode) (start : Nat) :
    (simpleTotals g mode start).Finite := by
  let edges := (List.range g.size).flatMap g.successors
  refine ((List.finite_toSet (edges.sublists.flatMap List.permutations)).image (total mode)).subset ?_
  rintro s ⟨es, v, hw, hn, rfl⟩
  have hsub : es ⊆ edges := by
    clear hn
    induction es generalizing start with
    | nil => exact List.nil_subset _
    | cons e es ih =>
      refine List.cons_subset.mpr ⟨?_, ih _ hw.2⟩
      exact List.mem_flatMap.mpr ⟨start, List.mem_range.mpr (Graph.lt_size_of_mem_successors hw.1), hw.1⟩
  obtain ⟨fs, hperm, hfs⟩ := (List.Nodup.of_map _ (List.nodup_cons.mp hn).2).subperm hsub
  exact ⟨es, List.mem_flatMap.mpr ⟨fs, List.mem_sublists.mpr hfs, List.mem_permutations.mpr hperm.symm⟩, rfl⟩

/-! ### Rounds -/

theorem expand_ordered [Ranked κ] {p : Progress κ} (h : p.openSet.Ordered) (u : Nat) :
    (expand g mode estimate u p).openSet.Ordered := by
  refine foldl_relax_induction (P := fun q => q.openSet.Ordered) (fun q hq _ _ _ _ _ => ?_) h
  exact hq.push _ _

/-- The first round takes up the start. -/
theorem within_succ {estimate : ν → ν → κ} {target : ν} (hstart : start < g.size) (hgoal : g.value? goal = some target)
    (hne : start ≠ goal) (rounds : Nat) :
    within (rounds + 1) g start goal mode estimate = run g goal mode (estimate · target) rounds
      (expand g mode (estimate · target) start (.departed g.size start)) := by
  obtain ⟨value, hvalue⟩ := Graph.exists_value? hstart
  have hpop : (Progress.initial g.size start : Progress κ).openSet.pop? = some ((start, zero), .empty) := rfl
  simp only [within, hgoal, hvalue, run, hpop, if_neg hne, Progress.departed]

/-- From a vertex to itself the first round finds the path without actions. -/
theorem within_self {estimate : ν → ν → κ} (hstart : start < g.size) (rounds : Nat) :
    within (rounds + 1) g start start mode estimate = .found [start] [] := by
  obtain ⟨value, hvalue⟩ := Graph.exists_value? hstart
  have hpop : (Progress.initial g.size start : Progress κ).openSet.pop? = some ((start, zero), .empty) := rfl
  have harrival : (Progress.initial g.size start : Progress κ).arrivals[start]? = some (some .start) := by
    simp [Progress.initial, hstart]
  simp only [within, hvalue, run, hpop, if_pos, Progress.route, path?, harrival]

variable [Lawful κ]

theorem Frontier.score_of_pop {q : Progress κ} {u : Nat} {k : κ} {rest : OpenSet Nat κ}
    (h : Frontier g mode estimate start goal none q) (hpop : q.openSet.pop? = some ((u, k), rest)) :
    ∃ s, q.score? u = some s := by
  obtain ⟨-, s, -, -, hs, -⟩ := h.entry k u (OpenSet.pop?_eq_some.mp hpop ▸ List.mem_cons_self)
  exact ⟨s, hs⟩

theorem round_frontier (hpay : Payable g mode) {p : Progress κ} {u : Nat} {k : κ} {rest : OpenSet Nat κ}
    (h : Frontier g mode estimate start goal none p) (hpop : p.openSet.pop? = some ((u, k), rest)) (hu : u ≠ goal) :
    Frontier g mode estimate start goal none (expand g mode estimate u { p with openSet := rest }) ∧
      potential (simpleTotals g mode start) g (expand g mode estimate u { p with openSet := rest }) <
        potential (simpleTotals g mode start) g p := by
  obtain ⟨s, hs⟩ := h.score_of_pop hpop
  obtain ⟨hq, hle⟩ := (h.pop hpop).expand hpay (finite_simpleTotals g mode start) hs hu
  exact ⟨hq, hle.trans_lt (potential_pop hpop)⟩

/-- A search between two vertices comes to an end after the first round, the same with any number of rounds beyond
    the bound. What the first round gives and every round keeps holds at the end. -/
theorem within_ends_with {I : Progress κ → Prop} (hpay : Payable g mode) (estimate : ν → ν → κ) {target : ν}
    (hstart : start < g.size) (hgoal : g.value? goal = some target) (hne : start ≠ goal)
    (hfirst : I (expand g mode (estimate · target) start (.departed g.size start)))
    (hround : ∀ p u k rest, Frontier g mode (estimate · target) start goal none p → I p →
      p.openSet.pop? = some ((u, k), rest) → u ≠ goal →
      I (expand g mode (estimate · target) u { p with openSet := rest })) :
    ∃ q r, Frontier g mode (estimate · target) start goal none q ∧ I q ∧ Ending goal q r ∧
      ∀ rounds, g.size * ((simpleTotals g mode start).ncard + 1) + 1 < rounds →
        within rounds g start goal mode estimate = r := by
  have hS := finite_simpleTotals g mode start
  have hdeparted : Frontier g mode (estimate · target) start goal (some start) (.departed g.size start) :=
    .departed hstart
  obtain ⟨hfrontier, hle⟩ := hdeparted.expand hpay hS hdeparted.score_start hne
  have hbound := hle.trans (potential_departed_le hS g start)
  obtain ⟨q, r, ⟨hq, hqi⟩, hend, hrun⟩ := run_ends
    (I := fun q => Frontier g mode (estimate · target) start goal none q ∧ I q)
    (μ := potential (simpleTotals g mode start) g)
    (fun p u k rest hp hpop hu =>
      have hnext := round_frontier hpay hp.1 hpop hu
      ⟨⟨hnext.1, hround p u k rest hp.1 hp.2 hpop hu⟩, hnext.2⟩)
    ⟨hfrontier, hfirst⟩
  refine ⟨q, r, hq, hqi, hend, fun rounds hr => ?_⟩
  obtain ⟨rounds, rfl⟩ := Nat.exists_eq_succ_of_ne_zero (Nat.ne_of_gt (Nat.zero_lt_of_lt hr))
  rw [within_succ hstart hgoal hne, hrun rounds (hbound.trans_lt (Nat.lt_of_succ_lt_succ hr))]

theorem within_ends [Ranked κ] (hpay : Payable g mode) (estimate : ν → ν → κ) {target : ν} (hstart : start < g.size)
    (hgoal : g.value? goal = some target) (hne : start ≠ goal) :
    ∃ q r, Frontier g mode (estimate · target) start goal none q ∧ q.openSet.Ordered ∧ Ending goal q r ∧
      ∀ rounds, g.size * ((simpleTotals g mode start).ncard + 1) + 1 < rounds →
        within rounds g start goal mode estimate = r :=
  within_ends_with hpay estimate hstart hgoal hne (expand_ordered OpenSet.Ordered.empty start)
    fun _ u _ _ _ hp hpop _ => expand_ordered (hp.first hpop).1 u

/-! ### What the last progress tells -/

/-- With no open entry left, everything that the start reaches has a score, and the goal has none. -/
theorem Frontier.not_reaches {q : Progress κ} (h : Frontier g mode estimate start goal none q)
    (hpop : q.openSet.pop? = none) (hgoal : goal < g.size) : ¬g.Reaches start goal := by
  intro hreach
  have hempty := OpenSet.pop?_eq_none.mp hpop
  have hsettled : ∀ v s, q.score? v = some s → v ≠ goal ∧ Settled g mode q v s := by
    intro v s hs
    refine (h.closed v s hs (Option.some_ne_none v).symm).resolve_left ?_
    rintro ⟨value, -, hmem⟩
    rw [hempty] at hmem
    cases hmem
  have hscored : goal < g.size → ∃ s, q.score? goal = some s := by
    refine hreach.closed (P := fun v => v < g.size → ∃ s, q.score? v = some s) (fun _ => ⟨_, h.score_start⟩) ?_
    intro v hv e he ht
    obtain ⟨s, hs⟩ := hv (Graph.lt_size_of_mem_successors he)
    obtain ⟨r, hr, -⟩ := (hsettled v s hs).2 e he ht
    exact ⟨r, hr⟩
  obtain ⟨s, hs⟩ := hscored hgoal
  exact (hsettled goal s hs).1 rfl

/-- The arrivals lead back from every vertex with a score, within the bound of the route. -/
theorem Consistent.route_eq {q : Progress κ} (h : Consistent g mode start q) {v : Nat} {s : κ}
    (hs : q.score? v = some s) :
    ∃ es, Traced g mode start q v es s ∧ q.route v = .found (visited start es) (es.map (·.action)) := by
  obtain ⟨es, hes⟩ := h.traced v s hs
  have hsub : visited start es ⊆ List.range g.size := by
    intro x hx
    obtain ⟨fs, r, hfs, -⟩ := hes.of_mem hx
    exact List.mem_range.mpr (h.scores_size ▸ Progress.lt_of_score? hfs.score)
  have hlen := (hes.nodup.subperm hsub).length_le
  simp only [visited, List.length_cons, List.length_map, List.length_range] at hlen
  refine ⟨es, hes, ?_⟩
  rw [Progress.route, hes.path?_eq (h.arrivals_size.symm ▸ Nat.lt_succ_of_lt hlen)]

end Intendant.Search

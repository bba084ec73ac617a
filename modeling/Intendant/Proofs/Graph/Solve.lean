import Intendant.Proofs.Graph.Outcome

/-! # Searches in doubles

A search in doubles ends within its bound: there are no more scores than there are doubles. So it finds a path
exactly where there is one, whatever the estimate, as long as the costs are not negative. -/

namespace Intendant.Graph
open Search
variable {ν : Type} {g : Graph ν Float} {mode : CostMode}

theorem injective_bits : Function.Injective fun a : Float => a.toBits.toFin := by
  intro a b h
  exact Float.toBits_inj.mp (UInt64.toFin_inj.mp h)

theorem ncard_le_doubles (S : Set Float) : S.ncard ≤ 2 ^ 64 := by
  have hfinite : Finite Float := Finite.of_injective _ injective_bits
  calc S.ncard ≤ Nat.card Float := Set.ncard_le_card S
    _ ≤ Nat.card (Fin UInt64.size) := Nat.card_le_card_of_injective _ injective_bits
    _ = 2 ^ 64 := Nat.card_fin _

theorem lt_enoughRounds (g : Graph ν Float) (S : Set Float) : g.size * (S.ncard + 1) + 1 < g.enoughRounds := by
  have hmul := Nat.mul_le_mul_left g.size (Nat.add_le_add_right (ncard_le_doubles S) 1)
  have hpow : g.enoughRounds = (g.size + 1) * 2 ^ 65 := rfl
  omega

/-- A search fails where no walk leads to the goal, and otherwise finds a walk that meets no vertex twice. -/
theorem solve_cases (g : Graph ν Float) (start goal : Nat) (mode : CostMode) (estimate : ν → ν → Float)
    (h : mode = .utility → ∀ u, ∀ e ∈ g.successors u, 0 ≤ e.utility) :
    ∃ r, (∀ rounds, g.enoughRounds ≤ rounds → within rounds g start goal mode estimate = r) ∧
      (r = .unreachable ∧ ¬(start < g.size ∧ goal < g.size ∧ g.Reaches start goal) ∨
        ∃ es, g.Walk start es goal ∧ (visited start es).Nodup ∧ start < g.size ∧ goal < g.size ∧
          r = .found (visited start es) (es.map (·.action))) := by
  have hbound := lt_enoughRounds g (simpleTotals g mode start)
  by_cases hends : start < g.size ∧ goal < g.size
  · obtain ⟨hstart, hgoal⟩ := hends
    by_cases hne : start = goal
    · subst hne
      refine ⟨_, fun rounds hr => ?_, .inr ⟨[], rfl, by simp [visited], hstart, hstart, rfl⟩⟩
      obtain ⟨rounds, rfl⟩ := Nat.exists_eq_succ_of_ne_zero (Nat.ne_of_gt (Nat.zero_lt_of_lt (hbound.trans_le hr)))
      exact within_self hstart rounds
    · obtain ⟨target, htarget⟩ := exists_value? hgoal
      obtain ⟨q, r, hq, -, hend, hwithin⟩ := within_ends (payable_of_sound h) estimate hstart htarget hne
      refine ⟨r, fun rounds hr => hwithin rounds (hbound.trans_le hr), ?_⟩
      rcases hend with ⟨hpop, rfl⟩ | ⟨k, rest, hpop, rfl⟩
      · exact .inl ⟨rfl, fun hreach => hq.not_reaches hpop hgoal hreach.2.2⟩
      · obtain ⟨s, hs⟩ := hq.score_of_pop hpop
        obtain ⟨es, hes, hroute⟩ := hq.route_eq hs
        exact .inr ⟨es, hes.walk, hes.nodup, hstart, hgoal, hroute⟩
  · refine ⟨_, fun rounds _ => ?_, .inl ⟨rfl, fun hreach => hends ⟨hreach.1, hreach.2.1⟩⟩⟩
    rw [within]
    split
    · rename_i htarget hvalue
      exact absurd ⟨lt_size_of_value? hvalue, lt_size_of_value? htarget⟩ hends
    · rfl

/-- Where the goal is reached, a search finds a walk to it. -/
theorem exists_solve_found (g : Graph ν Float) (start goal : Nat) (mode : CostMode) (estimate : ν → ν → Float)
    (h : mode = .utility → ∀ u, ∀ e ∈ g.successors u, 0 ≤ e.utility) (hstart : start < g.size) (hgoal : goal < g.size)
    (hreach : g.Reaches start goal) :
    ∃ es, g.Walk start es goal ∧ (visited start es).Nodup ∧
      g.solve start goal mode estimate = .found (visited start es) (es.map (·.action)) := by
  obtain ⟨r, hwithin, ⟨-, hnot⟩ | ⟨es, hw, hn, -, -, hfound⟩⟩ := solve_cases g start goal mode estimate h
  · exact absurd ⟨hstart, hgoal, hreach⟩ hnot
  · exact ⟨es, hw, hn, (hwithin _ le_rfl).trans hfound⟩

theorem isPath_of_solve {start goal : Nat} {estimate : ν → ν → Float} {path : List Nat} {actions : List Action}
    (hsolve : g.solve start goal mode estimate = .found path actions)
    (h : mode = .utility → ∀ u, ∀ e ∈ g.successors u, 0 ≤ e.utility) : g.IsPath start goal path actions := by
  obtain ⟨r, hwithin, hcases⟩ := solve_cases g start goal mode estimate h
  obtain rfl : r = .found path actions := (hwithin _ le_rfl).symm.trans hsolve
  rcases hcases with ⟨hnone, -⟩ | ⟨es, hw, hn, -, -, hfound⟩
  · cases hnone
  · cases hfound
    exact hw.isPath hn

/-- A search with costs that are not negative comes to an end of its own, so more rounds change nothing. It fails
    exactly where one of the ends is no vertex or the goal is out of reach, and what it finds is a path from the
    start to the goal. -/
theorem solve_sound_complete (g : Graph ν Float) (start goal : Nat) (mode : CostMode) (estimate : ν → ν → Float)
    (h : mode = .utility → ∀ u, ∀ e ∈ g.successors u, 0 ≤ e.utility) :
    g.solve start goal mode estimate ≠ .endless ∧
    (∀ rounds, g.enoughRounds ≤ rounds →
      within rounds g start goal mode estimate = g.solve start goal mode estimate) ∧
    (g.solve start goal mode estimate = .unreachable ↔ ¬(start < g.size ∧ goal < g.size ∧ g.Reaches start goal)) ∧
    ∀ path actions, g.solve start goal mode estimate = .found path actions → g.IsPath start goal path actions := by
  obtain ⟨r, hwithin, hcases⟩ := solve_cases g start goal mode estimate h
  have hsolve : g.solve start goal mode estimate = r := hwithin _ le_rfl
  rw [hsolve]
  rcases hcases with ⟨rfl, hnot⟩ | ⟨es, hw, hn, hstart, hgoal, rfl⟩
  · exact ⟨nofun, hwithin, iff_of_true rfl hnot, nofun⟩
  · refine ⟨nofun, hwithin, iff_of_false nofun fun hnot => hnot ⟨hstart, hgoal, es, hw⟩, fun path actions hfound => ?_⟩
    cases hfound
    exact hw.isPath hn

/-- Two vertices with a loop and a way back, and two ways between them, one of them for free. -/
def roundabout : Graph Nat Float :=
  (((((empty.addVertex 0).addVertex 1).addEdge 0 0 0.0 { name := "turn" }).addEdge 0 1 2.0 { name := "walk" }).addEdge
    0 1 0.0 { name := "roll" }).addEdge 1 0 0.5 { name := "return" }

theorem nonneg_roundabout : ∀ u, ∀ e ∈ roundabout.successors u, 0 ≤ e.utility := by
  refine utility_addEdge (utility_addEdge (utility_addEdge (utility_addEdge ?_ ?_) ?_) ?_) ?_
  · simp
  all_goals decide

theorem solve_sound_complete_roundabout :
    (∀ u, ∀ e ∈ roundabout.successors u, 0 ≤ e.utility) ∧
      ∃ path actions, roundabout.solve 0 1 .utility (fun _ _ => 0.0 / 0.0) = .found path actions ∧
        roundabout.IsPath 0 1 path actions := by
  obtain ⟨hends, -, hfails, hfinds⟩ :=
    solve_sound_complete roundabout 0 1 .utility (fun _ _ => 0.0 / 0.0) fun _ => nonneg_roundabout
  refine ⟨nonneg_roundabout, ?_⟩
  have hreach : roundabout.Reaches 0 1 :=
    ⟨[⟨1, 2.0, { name := "walk" }⟩], by simp [roundabout, mem_successors_addEdge], rfl⟩
  cases hsolve : roundabout.solve 0 1 .utility (fun _ _ => 0.0 / 0.0) with
  | unreachable => exact absurd ⟨by decide, by decide, hreach⟩ (hfails.mp hsolve)
  | endless => exact absurd hsolve hends
  | found path actions => exact ⟨path, actions, rfl, hfinds path actions hsolve⟩

end Intendant.Graph

import Intendant.Proofs.Double.Signs
import Intendant.Proofs.Graph.Repriced
import Intendant.Proofs.Graph.Solve

/-! # Searches by hops

Without an estimate a search by hops takes up the vertices in the order of their distance from the start: whatever is
queued is one hop further away than the vertex that is taken up, and goes to the end of the queue (`Rippled`). No score
is ever improved, so it does not matter that the doubles which count the hops are rounded from some number on. The
path that is found has the fewest hops (`hops_of_solve`). -/

namespace Intendant

namespace OpenSet
variable {α κ : Type} [Cost κ]

theorem place_eq_concat {p : κ} {v : α} {l : List (κ × α)} (h : ∀ x ∈ l, Cost.notAfter x.1 p = true) :
    place p v l = l ++ [(p, v)] := by
  induction l with
  | nil => rfl
  | cons y l ih =>
    unfold place
    rw [if_pos (h y List.mem_cons_self), ih fun x hx => h x (List.mem_cons_of_mem y hx), List.cons_append]

end OpenSet

namespace Graph
variable {ν κ : Type} {g : Graph ν κ} {u v : Nat} {m n : Nat}

theorem Hops.unique (hm : g.Hops u v m) (hn : g.Hops u v n) : m = n := by
  obtain ⟨⟨es, hes, rfl⟩, hmin⟩ := hm
  obtain ⟨⟨fs, hfs, rfl⟩, hmin'⟩ := hn
  exact Nat.le_antisymm (hmin fs hfs) (hmin' es hes)

theorem hops_self (u : Nat) : g.Hops u u 0 := ⟨⟨[], rfl, rfl⟩, fun _ _ => Nat.zero_le _⟩

theorem Hops.eq_of_zero (h : g.Hops u v 0) : u = v := by
  obtain ⟨⟨es, hw, hlength⟩, -⟩ := h
  obtain rfl := List.length_eq_zero_iff.mp hlength
  exact hw

theorem Walk.exists_hops_le {es : List (Edge κ)} (h : g.Walk u es v) : ∃ n ≤ es.length, g.Hops u v n := by
  obtain ⟨n, hn⟩ := Reaches.exists_hops ⟨es, h⟩
  exact ⟨n, hn.2 es h, hn⟩

/-- The vertex before the last one on a walk with the fewest hops. -/
theorem Hops.exists_before (h : g.Hops u v (n + 1)) : ∃ x, g.Hops u x n ∧ ∃ e ∈ g.successors x, e.target = v := by
  obtain ⟨⟨es, hw, hlength⟩, hmin⟩ := h
  rcases es.eq_nil_or_concat with rfl | ⟨es, e, rfl⟩
  · cases hlength
  · rw [List.concat_eq_append] at hw hlength
    obtain ⟨x, hes, he, htarget⟩ := walk_concat_iff.mp hw
    rw [List.length_append, List.length_singleton] at hlength
    refine ⟨x, ⟨⟨es, hes, Nat.succ.inj hlength⟩, fun fs hfs => ?_⟩, e, he, htarget⟩
    have hle := hmin (fs ++ [e]) (htarget ▸ hfs.concat he)
    rw [List.length_append, List.length_singleton] at hle
    exact Nat.le_of_succ_le_succ hle

theorem hops_repriced {κ' : Type} (f : κ → κ') : (g.repriced f).Hops u v n ↔ g.Hops u v n := by
  constructor
  · rintro ⟨⟨fs, hfs, rfl⟩, hmin⟩
    obtain ⟨es, hes, rfl⟩ := exists_of_walk_repriced hfs
    refine ⟨⟨es, hes, by rw [List.length_map]⟩, fun es' hes' => ?_⟩
    simpa using hmin _ hes'.repriced
  · rintro ⟨⟨es, hes, rfl⟩, hmin⟩
    refine ⟨⟨_, hes.repriced, List.length_map _⟩, fun fs hfs => ?_⟩
    obtain ⟨es', hes', rfl⟩ := exists_of_walk_repriced hfs
    simpa using hmin es' hes'

end Graph

namespace Search
open Cost
open Intendant.Graph (visited)

/-! ### Scores -/

/-- The score of a walk with so many hops. -/
def hopScore : Nat → Float
  | 0 => zero
  | n + 1 => add (hopScore n) one

/-- The priority of a vertex so many hops away. -/
def hopPriority (n : Nat) : Float := add (hopScore n) 0.0

theorem nonneg_hopScore (n : Nat) : 0 ≤ hopScore n := by
  induction n with
  | zero => decide
  | succ n ih => exact Double.add_nonneg ih (by decide)

theorem hopScore_le {i j : Nat} (h : i ≤ j) : hopScore i ≤ hopScore j := by
  induction h with
  | refl => exact (atMost_iff (nonneg_hopScore i) (nonneg_hopScore i)).mp (.refl _)
  | step _ ih => exact Double.le_trans ih (Double.le_add_of_nonneg (nonneg_hopScore _) (by decide))

theorem notAfter_hopPriority {i j : Nat} (h : i ≤ j) : notAfter (hopPriority i) (hopPriority j) = true := by
  refine floatNotAfter_iff.mpr (.inr ?_)
  have hj := Double.le_add_of_nonneg (b := 0.0) (nonneg_hopScore j) (by decide)
  exact Double.le_trans (Double.add_zero_le (nonneg_hopScore i)) (Double.le_trans (hopScore_le h) hj)

/-! ### Levels -/

section
variable {ν : Type} {g : Graph ν Float} {start goal n u v : Nat} {p : Progress Float} {e : Edge Float}
  {rest : OpenSet Nat Float} {s k : Float}

/-- The progress while the vertices at one distance from the start are taken up. -/
structure Rippled (g : Graph ν Float) (start n : Nat) (p : Progress Float) : Prop where
  scored : ∀ v s, p.score? v = some s → ∃ i ≤ n + 1, g.Hops start v i ∧ s = hopScore i
  near : ∀ v i, v < g.size → g.Hops start v i → i ≤ n → ∃ s, p.score? v = some s
  arrived : ∀ u v a, p.arrival? v = some (.via u a) → ∃ i, g.Hops start u i ∧ g.Hops start v (i + 1)
  waiting : ∀ x ∈ p.openSet.entries, ∃ i, n ≤ i ∧ i ≤ n + 1 ∧ g.Hops start x.2 i ∧ x.1 = hopPriority i
  ordered : p.openSet.entries.Pairwise fun x y => ∀ i j, g.Hops start x.2 i → g.Hops start y.2 j → i ≤ j

namespace Rippled

theorem departed (hstart : start < g.size) : Rippled g start 0 (.departed g.size start) where
  scored v s hs := by
    rw [Progress.score?_departed hstart] at hs
    split at hs
    · subst v
      exact ⟨0, Nat.zero_le _, Graph.hops_self start, (Option.some.inj hs).symm⟩
    · cases hs
  near v i _ hi hle := by
    obtain rfl := Nat.le_zero.mp hle
    rw [← hi.eq_of_zero, Progress.score?_departed hstart, if_pos rfl]
    exact ⟨_, rfl⟩
  arrived u v a ha := by cases (Progress.eq_of_arrival?_departed hstart ha).2
  waiting x hx := by cases hx
  ordered := .nil

/-- A vertex without a score that an edge leads to lies on the next level. -/
theorem hops_target (h : Rippled g start n p) (hu : g.Hops start u n) (he : e ∈ g.successors u) (ht : e.target < g.size)
    (hnew : p.score? e.target = none) : g.Hops start e.target (n + 1) := by
  obtain ⟨⟨es, hes, rfl⟩, -⟩ := hu
  obtain ⟨i, hi, hhops⟩ := (hes.concat he).exists_hops_le
  rw [List.length_append, List.length_singleton] at hi
  rcases Nat.lt_or_eq_of_le hi with hlt | rfl
  · obtain ⟨s, hs⟩ := h.near _ i ht hhops (Nat.le_of_lt_succ hlt)
    rw [hnew] at hs
    cases hs
  · exact hhops

/-- No score is improved: whatever has one is no further away. -/
theorem score?_eq_none (h : Rippled g start n p) (himp : p.improves v (hopScore (n + 1)) = true) : p.score? v = none := by
  cases hs : p.score? v with
  | none => rfl
  | some s =>
    obtain ⟨i, hi, -, rfl⟩ := h.scored v s hs
    have hless := Progress.improves_iff.mp himp _ hs
    exact absurd hless (((atMost_iff (nonneg_hopScore i) (nonneg_hopScore _)).mpr (hopScore_le hi)).not_less)

theorem reach (h : Rippled g start n p) (hscores : p.scores.size = g.size) (hu : g.Hops start u n)
    (he : e ∈ g.successors u) (ht : e.target < g.size) (himp : p.improves e.target (hopScore (n + 1)) = true) :
    Rippled g start n (p.reach e.target (hopScore (n + 1)) (hopPriority (n + 1)) (.via u e.action)) := by
  have htarget := h.hops_target hu he ht (h.score?_eq_none himp)
  have hself : (p.reach e.target (hopScore (n + 1)) (hopPriority (n + 1)) (.via u e.action)).score? e.target = _ :=
    Progress.score?_reach_self (hscores.symm ▸ ht)
  -- Every waiting vertex is at most one level on, so the new entry goes behind all of them.
  have hlast : ∀ x ∈ p.openSet.entries, notAfter x.1 (hopPriority (n + 1)) = true := by
    intro x hx
    obtain ⟨i, -, hi, -, hpriority⟩ := h.waiting x hx
    exact hpriority ▸ notAfter_hopPriority hi
  have hentries : (p.reach e.target (hopScore (n + 1)) (hopPriority (n + 1)) (.via u e.action)).openSet.entries =
      p.openSet.entries ++ [(hopPriority (n + 1), e.target)] := OpenSet.place_eq_concat hlast
  refine ⟨fun v s hs => ?_, fun v i hv hi hle => ?_, fun x v a ha => ?_, fun x hx => ?_, ?_⟩
  · by_cases hvt : v = e.target
    · rw [hvt, hself] at hs
      exact ⟨n + 1, le_rfl, hvt ▸ htarget, (Option.some.inj hs).symm⟩
    · rw [Progress.score?_reach_of_ne hvt] at hs
      exact h.scored v s hs
  · by_cases hvt : v = e.target
    · exact ⟨_, (congrArg _ hvt).trans hself⟩
    · rw [Progress.score?_reach_of_ne hvt]
      exact h.near v i hv hi hle
  · by_cases hvt : v = e.target
    · subst hvt
      have harrival : (Arrival.via u e.action) = .via x a := by
        by_cases hlt : e.target < p.arrivals.size
        · rw [Progress.arrival?_reach_self hlt] at ha
          exact Option.some.inj ha
        · simp [Progress.reach, Progress.arrival?, hlt] at ha
      cases harrival
      exact ⟨n, hu, htarget⟩
    · rw [Progress.arrival?_reach_of_ne hvt] at ha
      exact h.arrived x v a ha
  · rw [hentries, List.mem_append, List.mem_singleton] at hx
    rcases hx with hx | rfl
    · exact h.waiting x hx
    · exact ⟨n + 1, Nat.le_succ n, le_rfl, htarget, rfl⟩
  · rw [hentries]
    refine List.pairwise_append.mpr ⟨h.ordered, List.pairwise_singleton _ _, fun x hx y hy i j hi hj => ?_⟩
    obtain rfl := List.mem_singleton.mp hy
    obtain ⟨i', -, hle, hi', -⟩ := h.waiting x hx
    rwa [hi.unique hi', hj.unique htarget]

theorem pop (h : Rippled g start n p) (hpop : p.openSet.pop? = some ((u, k), rest)) :
    Rippled g start n { p with openSet := rest } := by
  have hentries := OpenSet.pop?_eq_some.mp hpop
  refine ⟨h.scored, h.near, h.arrived, fun x hx => h.waiting x (hentries ▸ List.mem_cons_of_mem _ hx), ?_⟩
  have hordered := h.ordered
  rw [hentries] at hordered
  exact (List.pairwise_cons.mp hordered).2

/-- Following the edges of a vertex on the level stays on it. -/
theorem expand (h : Rippled g start n p) (hscores : p.scores.size = g.size) (hu : g.Hops start u n)
    (hs : p.score? u = some s) : Rippled g start n (expand g .hops (fun _ => 0.0) u p) := by
  obtain ⟨i, -, hi, rfl⟩ := h.scored u s hs
  obtain rfl := hi.unique hu
  rw [expand_eq hs]
  refine (foldl_relax_induction (P := fun q => Rippled g start i q ∧ q.scores.size = g.size) ?_ ⟨h, hscores⟩).1
  rintro q ⟨hq, hsize⟩ e he value hvalue himp
  exact ⟨hq.reach hsize hu he (Graph.lt_size_of_value? hvalue) himp, by simp [Progress.reach, hsize]⟩

/-- Once the first entry lies on the next level, all of the level before is settled, and so that level is known. -/
theorem advance (h : Rippled g start n p) (hfrontier : Frontier g .hops (fun _ => 0.0) start goal none p)
    (hpop : p.openSet.pop? = some ((u, k), rest)) (hu : g.Hops start u (n + 1)) : Rippled g start (n + 1) p := by
  have hentries := OpenSet.pop?_eq_some.mp hpop
  have hlevel : ∀ x ∈ p.openSet.entries, ∀ i, g.Hops start x.2 i → n + 1 ≤ i := by
    intro x hx i hi
    have hordered := h.ordered
    rw [hentries] at hx hordered
    rcases List.mem_cons.mp hx with rfl | hx
    · exact Nat.le_of_eq (hu.unique hi)
    · exact (List.pairwise_cons.mp hordered).1 x hx _ _ hu hi
  refine ⟨fun v s hs => ?_, fun v i hv hi hle => ?_, h.arrived, fun x hx => ?_, h.ordered⟩
  · obtain ⟨i, hi, hhops⟩ := h.scored v s hs
    exact ⟨i, Nat.le_succ_of_le hi, hhops⟩
  · rcases Nat.lt_or_eq_of_le hle with hlt | rfl
    · exact h.near v i hv hi (Nat.le_of_lt_succ hlt)
    -- The vertex before it lies on the finished level and does not wait any more, so its edges were followed.
    · obtain ⟨x, hx, e, he, rfl⟩ := hi.exists_before
      obtain ⟨r, hr⟩ := h.near x n (Graph.lt_size_of_mem_successors he) hx le_rfl
      rcases hfrontier.closed x r hr (Option.some_ne_none x).symm with ⟨value, -, hmem⟩ | ⟨-, hsettled⟩
      · exact absurd (hlevel _ hmem n hx) (Nat.not_succ_le_self n)
      · obtain ⟨s, hs, -⟩ := hsettled e he hv
        exact ⟨s, hs⟩
  · obtain ⟨i, -, hi, hhops, hpriority⟩ := h.waiting x hx
    exact ⟨i, hlevel x hx i hhops, Nat.le_succ_of_le hi, hhops, hpriority⟩

/-- A round takes up a vertex on the level or on the next one. -/
theorem round (h : Rippled g start n p) (hfrontier : Frontier g .hops (fun _ => 0.0) start goal none p)
    (hpop : p.openSet.pop? = some ((u, k), rest)) :
    ∃ m, Rippled g start m (Search.expand g .hops (fun _ => 0.0) u { p with openSet := rest }) := by
  obtain ⟨s, hs⟩ := hfrontier.score_of_pop hpop
  obtain ⟨i, hle, hle', hu, -⟩ := h.waiting _ (OpenSet.pop?_eq_some.mp hpop ▸ List.mem_cons_self)
  refine ⟨i, Rippled.expand ?_ hfrontier.scores_size hu hs⟩
  rcases Nat.lt_or_eq_of_le hle with hlt | rfl
  · obtain rfl : i = n + 1 := Nat.le_antisymm hle' hlt
    exact (h.advance hfrontier hpop hu).pop hpop
  · exact h.pop hpop

/-- A trace has as many edges as the level of its last vertex says. -/
theorem hops_of_traced (h : Rippled g start n p) {es : List (Edge Float)} (hes : Traced g .hops start p v es s) :
    g.Hops start v es.length := by
  induction hes with
  | start => exact Graph.hops_self start
  | @via u es e _ _ _ _ ha _ _ ih =>
    obtain ⟨i, hu, hv⟩ := h.arrived u e.target e.action ha
    rw [List.length_append, List.length_singleton, ih.unique hu]
    exact hv

end Rippled
end
end Search

namespace Graph
open Search
variable {ν : Type} {g : Graph ν Float} {start goal : Nat} {path : List Nat} {actions : List Action}

/-- A search by hops without an estimate finds a path with the fewest hops. -/
theorem hops_of_solve (h : g.solve start goal .hops noEstimate = .found path actions) :
    g.Hops start goal actions.length := by
  obtain ⟨r, hr, hcases⟩ := solve_cases g start goal .hops noEstimate nofun
  obtain rfl : g.solve start goal .hops noEstimate = r := hr _ le_rfl
  rcases hcases with ⟨hnone, -⟩ | ⟨es, hw, hn, hstart, hgoal, hfound⟩
  · rw [h] at hnone
    cases hnone
  -- From a vertex to itself the first round takes the goal; the levels begin with an expansion.
  by_cases hne : start = goal
  · subst hne
    obtain rfl := hw.eq_nil hn
    cases h.symm.trans hfound
    exact hops_self start
  · obtain ⟨target, htarget⟩ := exists_value? hgoal
    have hpay : Payable g .hops := payable_of_sound nofun
    have hdeparted := Rippled.departed hstart
    obtain ⟨q, r, hq, ⟨n, hrippled⟩, hend, hwithin⟩ := within_ends_with (I := fun p => ∃ n, Rippled g start n p) hpay
      noEstimate hstart htarget hne
      ⟨0, hdeparted.expand (by simp [Progress.departed, Progress.initial]) (hops_self start)
        (by rw [Progress.score?_departed hstart, if_pos rfl])⟩
      fun p u k rest hp ⟨_, hrippled⟩ hpop _ => hrippled.round hp hpop
    have hsolve : g.solve start goal .hops noEstimate = r := hwithin _ (lt_enoughRounds g _)
    rw [h] at hsolve
    rcases hend with ⟨-, rfl⟩ | ⟨k, rest, hpop, rfl⟩
    · cases hsolve
    · obtain ⟨s, hs⟩ := hq.score_of_pop hpop
      obtain ⟨fs, hfs, hroute⟩ := hq.route_eq hs
      cases hsolve.trans hroute
      rw [List.length_map]
      exact hrippled.hops_of_traced hfs

end Graph
end Intendant

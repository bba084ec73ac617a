import Intendant.Proofs.Graph.Solve

/-! # How searches end

The rounds of a search come to an end whatever the edges cost: a vertex is queued again only with a better score,
and there are finitely many scores. When no entry is open any more, everything that the start reaches has a score
(`Covering`).

What need not end is the way back. The only arrival without one before it is the start's own. Once it is overwritten,
which takes a negative cost, every way back goes round for ever (`Covering.path?_eq_none`). -/

namespace Intendant.Search
open Cost
variable {ν κ : Type} [Cost κ]

/-! ### Rounds -/

section
variable (g : Graph ν κ) (goal : Nat) (mode : CostMode) (estimate : ν → κ)

/-- One round: the first open entry is taken out and its vertex expanded. There is none where no entry is open or the
    goal is taken. -/
def round? (p : Progress κ) : Option (Progress κ) :=
  match p.openSet.pop? with
  | some ((u, _), rest) => if u = goal then none else some (expand g mode estimate u { p with openSet := rest })
  | none => none

/-- So many rounds lead from one progress to another one. -/
inductive Rounds : Nat → Progress κ → Progress κ → Prop
  | refl (p : Progress κ) : Rounds 0 p p
  | step {n : Nat} {p q r : Progress κ} (h : round? g goal mode estimate p = some q) (hs : Rounds n q r) :
      Rounds (n + 1) p r

end

/-- What a search makes of its last progress. -/
def Progress.outcome (goal : Nat) (p : Progress κ) : Route :=
  match p.openSet.pop? with
  | some _ => p.route goal
  | none => .unreachable

section
variable {g : Graph ν κ} {start goal : Nat} {mode : CostMode} {estimate : ν → κ} {p q : Progress κ} {u v n : Nat}
  {e : Edge κ} {s k : κ} {rest : OpenSet Nat κ}

theorem round?_eq_some (h : round? g goal mode estimate p = some q) :
    ∃ u k rest, p.openSet.pop? = some ((u, k), rest) ∧ u ≠ goal ∧
      q = expand g mode estimate u { p with openSet := rest } := by
  unfold round? at h
  split at h
  · rename_i u k rest hpop
    split at h
    · cases h
    · rename_i hu
      exact ⟨u, k, rest, hpop, hu, (Option.some.inj h).symm⟩
  · cases h

theorem round?_eq_none (h : round? g goal mode estimate p = none) :
    p.openSet.pop? = none ∨ ∃ k rest, p.openSet.pop? = some ((goal, k), rest) := by
  unfold round? at h
  split at h
  · rename_i u k rest hpop
    split at h
    · rename_i hu
      exact .inr ⟨k, rest, hu ▸ hpop⟩
    · cases h
  · exact .inl ‹_›

/-- A search that is given more rounds than it needs gives the outcome of its last progress. -/
theorem run_of_rounds (h : Rounds g goal mode estimate n p q) (hend : round? g goal mode estimate q = none) {rounds : Nat}
    (hn : n < rounds) : run g goal mode estimate rounds p = q.outcome goal := by
  induction h generalizing rounds with
  | refl p =>
    obtain ⟨rounds, rfl⟩ := Nat.exists_eq_succ_of_ne_zero (Nat.ne_of_gt hn)
    rcases round?_eq_none hend with hpop | ⟨k, rest, hpop⟩
    · simp only [run, Progress.outcome, hpop]
    · simp only [run, Progress.outcome, hpop, if_pos]
  | step h _ ih =>
    obtain ⟨rounds, rfl⟩ := Nat.exists_eq_succ_of_ne_zero (Nat.ne_of_gt (Nat.zero_lt_of_lt hn))
    obtain ⟨u, k, rest, hpop, hu, rfl⟩ := round?_eq_some h
    rw [← ih hend (Nat.lt_of_succ_lt_succ hn)]
    simp only [run, hpop, if_neg hu]

/-- Rounds that keep an invariant and lower a measure come to an end, after no more of them than the measure. -/
theorem rounds_end {I : Progress κ → Prop} {μ : Progress κ → Nat}
    (hstep : ∀ p q, I p → round? g goal mode estimate p = some q → I q ∧ μ q < μ p) (hp : I p) :
    ∃ n q, n ≤ μ p ∧ Rounds g goal mode estimate n p q ∧ round? g goal mode estimate q = none ∧ I q := by
  induction hμ : μ p using Nat.strong_induction_on generalizing p with
  | _ m ih =>
    subst hμ
    cases hround : round? g goal mode estimate p with
    | none => exact ⟨0, p, Nat.zero_le _, .refl p, hround, hp⟩
    | some q =>
      obtain ⟨hq, hlt⟩ := hstep p q hp hround
      obtain ⟨n, r, hn, hrounds, hend, hr⟩ := ih _ hlt hq rfl
      exact ⟨n + 1, r, Nat.succ_le_of_lt (hn.trans_lt hlt), .step hround hrounds, hend, hr⟩

/-! ### What is covered -/

/-- A vertex has a score. -/
def Scored (p : Progress κ) (v : Nat) : Prop := ∃ s, p.score? v = some s

/-- A vertex was reached. -/
def Arrived (p : Progress κ) (v : Nat) : Prop := ∃ a, p.arrival? v = some a

/-- What holds between two rounds whatever the edges cost. A vertex with a score waits in the open set, or is not the
    goal and everything behind its edges has a score. A vertex that is being expanded is exempt from this. -/
structure Covering (g : Graph ν κ) (start goal : Nat) (busy : Option Nat) (p : Progress κ) : Prop where
  scores_size : p.scores.size = g.size
  arrivals_size : p.arrivals.size = g.size
  scored_start : Scored p start
  arrived : ∀ v, Scored p v → Arrived p v
  origin : ∀ v, p.arrival? v = some .start → v = start
  onward : ∀ v u a, p.arrival? v = some (.via u a) → Arrived p u
  reached : ∀ v, Scored p v → g.Reaches start v
  entry : ∀ k v, (k, v) ∈ p.openSet.entries → Scored p v
  closed : ∀ v, Scored p v → busy ≠ some v →
    (∃ k, (k, v) ∈ p.openSet.entries) ∨ v ≠ goal ∧ ∀ e ∈ g.successors v, e.target < g.size → Scored p e.target

theorem Scored.reach {a : Arrival} (h : Scored p u) (hv : v < p.scores.size) : Scored (p.reach v s k a) u := by
  by_cases hu : u = v
  · subst hu
    exact ⟨s, Progress.score?_reach_self hv⟩
  · obtain ⟨r, hr⟩ := h
    exact ⟨r, (Progress.score?_reach_of_ne hu).trans hr⟩

theorem Arrived.reach {a : Arrival} (h : Arrived p u) (hv : v < p.arrivals.size) : Arrived (p.reach v s k a) u := by
  by_cases hu : u = v
  · subst hu
    exact ⟨a, Progress.arrival?_reach_self hv⟩
  · obtain ⟨b, hb⟩ := h
    exact ⟨b, (Progress.arrival?_reach_of_ne hu).trans hb⟩

theorem scored_reach_iff {a : Arrival} (hv : v < p.scores.size) : Scored (p.reach v s k a) u ↔ u = v ∨ Scored p u := by
  constructor
  · rintro ⟨r, hr⟩
    by_cases hu : u = v
    · exact .inl hu
    · exact .inr ⟨r, (Progress.score?_reach_of_ne hu).symm.trans hr⟩
  · rintro (rfl | h)
    · exact ⟨s, Progress.score?_reach_self hv⟩
    · exact h.reach hv

theorem scored_initial_iff (hstart : start < g.size) : Scored (.initial g.size start : Progress κ) v ↔ v = start := by
  have hscore : (Progress.initial g.size start : Progress κ).score? v = if v = start then some zero else none :=
    Progress.score?_departed hstart v
  rw [Scored, hscore]
  split <;> simp_all

theorem arrival?_initial (hstart : start < g.size) {a : Arrival}
    (h : (Progress.initial g.size start : Progress κ).arrival? v = some a) : v = start ∧ a = .start :=
  Progress.eq_of_arrival?_departed (κ := κ) hstart h

theorem Covering.initial (hstart : start < g.size) : Covering g start goal none (.initial g.size start) where
  scores_size := by simp [Progress.initial]
  arrivals_size := by simp [Progress.initial]
  scored_start := (scored_initial_iff hstart).mpr rfl
  arrived v hv := by
    obtain rfl := (scored_initial_iff hstart).mp hv
    exact ⟨.start, Progress.arrival?_departed (κ := κ) hstart⟩
  origin v hv := (arrival?_initial hstart hv).1
  onward v u a hv := nomatch (arrival?_initial hstart hv).2
  reached v hv := by
    obtain rfl := (scored_initial_iff hstart).mp hv
    exact .refl v
  entry k v hmem := by
    cases List.mem_singleton.mp hmem
    exact (scored_initial_iff hstart).mpr rfl
  closed v hv _ := by
    obtain rfl := (scored_initial_iff hstart).mp hv
    exact .inl ⟨zero, List.mem_singleton_self _⟩

namespace Covering

theorem reach (h : Covering g start goal (some u) p) (hu : Scored p u) (he : e ∈ g.successors u) (ht : e.target < g.size)
    (a : Action) : Covering g start goal (some u) (p.reach e.target s k (.via u a)) := by
  have hscores : e.target < p.scores.size := h.scores_size.symm ▸ ht
  have harrivals : e.target < p.arrivals.size := h.arrivals_size.symm ▸ ht
  refine ⟨by simp [Progress.reach, h.scores_size], by simp [Progress.reach, h.arrivals_size],
    h.scored_start.reach hscores, fun v hv => ?_, fun v hv => ?_, fun v w b hv => ?_, fun v hv => ?_, fun k v hmem => ?_,
    fun v hv hne => ?_⟩
  · rcases (scored_reach_iff hscores).mp hv with rfl | hv
    · exact ⟨_, Progress.arrival?_reach_self harrivals⟩
    · exact (h.arrived v hv).reach harrivals
  · by_cases hvt : v = e.target
    · rw [hvt, Progress.arrival?_reach_self harrivals] at hv
      cases hv
    · exact h.origin v ((Progress.arrival?_reach_of_ne hvt).symm.trans hv)
  · by_cases hvt : v = e.target
    · rw [hvt, Progress.arrival?_reach_self harrivals] at hv
      cases hv
      exact (h.arrived u hu).reach harrivals
    · exact (h.onward v w b ((Progress.arrival?_reach_of_ne hvt).symm.trans hv)).reach harrivals
  · rcases (scored_reach_iff hscores).mp hv with rfl | hv
    · exact (h.reached u hu).step he
    · exact h.reached v hv
  · rcases OpenSet.mem_push.mp hmem with heq | hmem
    · cases heq
      exact (scored_reach_iff hscores).mpr (.inl rfl)
    · exact (h.entry k v hmem).reach hscores
  · rcases (scored_reach_iff hscores).mp hv with rfl | hv
    · exact .inl ⟨k, OpenSet.mem_push.mpr (.inl rfl)⟩
    · rcases h.closed v hv hne with ⟨k', hmem⟩ | ⟨hgoal, hbehind⟩
      · exact .inl ⟨k', OpenSet.mem_push.mpr (.inr hmem)⟩
      · exact .inr ⟨hgoal, fun f hf hft => (hbehind f hf hft).reach hscores⟩

omit [Cost κ] in
/-- Taking a vertex out exempts it. -/
theorem pop (h : Covering g start goal none p) (hpop : p.openSet.pop? = some ((u, k), rest)) :
    Covering g start goal (some u) { p with openSet := rest } := by
  have hentries := OpenSet.pop?_eq_some.mp hpop
  refine ⟨h.scores_size, h.arrivals_size, h.scored_start, h.arrived, h.origin, h.onward, h.reached, fun k v hmem => ?_,
    fun v hv hne => ?_⟩
  · exact h.entry k v (hentries ▸ List.mem_cons_of_mem _ hmem)
  · refine (h.closed v hv (Option.some_ne_none v).symm).imp_left ?_
    rintro ⟨k', hmem⟩
    rw [hentries] at hmem
    rcases List.mem_cons.mp hmem with heq | hmem
    · cases heq
      exact absurd rfl hne
    · exact ⟨k', hmem⟩

omit [Cost κ] in
/-- With no open entry left, a goal that the start reaches would have a score and so be open. -/
theorem not_reaches (h : Covering g start goal none p) (hpop : p.openSet.pop? = none) (hgoal : goal < g.size) :
    ¬g.Reaches start goal := by
  intro hreach
  have hbehind : ∀ v, Scored p v → v ≠ goal ∧ ∀ e ∈ g.successors v, e.target < g.size → Scored p e.target := by
    intro v hv
    refine (h.closed v hv (Option.some_ne_none v).symm).resolve_left ?_
    rintro ⟨k, hmem⟩
    rw [OpenSet.pop?_eq_none.mp hpop] at hmem
    cases hmem
  have hscored : goal < g.size → Scored p goal := by
    refine hreach.closed (P := fun v => v < g.size → Scored p v) (fun _ => h.scored_start) fun v hv e he ht => ?_
    exact (hbehind v (hv (Graph.lt_size_of_mem_successors he))).2 e he ht
  exact (hbehind goal (hscored hgoal)).1 rfl

variable [Strict κ] [Finite κ]

/-- Following some of the edges out of a vertex gives all their targets a score and takes none away. -/
theorem foldl_relax (h : Covering g start goal (some u) p) (hu : Scored p u) (mode : CostMode) (estimate : ν → κ)
    {es : List (Edge κ)} (hes : ∀ e ∈ es, e ∈ g.successors u) (r : κ) :
    Covering g start goal (some u) (es.foldl (relax g mode estimate u r) p) ∧
      (∀ v, Scored p v → Scored (es.foldl (relax g mode estimate u r) p) v) ∧
      (∀ e ∈ es, e.target < g.size → Scored (es.foldl (relax g mode estimate u r) p) e.target) ∧
      potential Set.univ g (es.foldl (relax g mode estimate u r) p) ≤ potential Set.univ g p := by
  induction es generalizing p with
  | nil => exact ⟨h, fun _ hv => hv, fun _ he => absurd he List.not_mem_nil, le_rfl⟩
  | cons e es ih =>
    obtain ⟨hq, hkept, htarget, hle⟩ : Covering g start goal (some u) (relax g mode estimate u r p e) ∧
        (∀ v, Scored p v → Scored (relax g mode estimate u r p e) v) ∧
        (e.target < g.size → Scored (relax g mode estimate u r p e) e.target) ∧
        potential Set.univ g (relax g mode estimate u r p e) ≤ potential Set.univ g p := by
      rcases relax_cases g mode estimate u r p e with ⟨heq, hknown⟩ | ⟨value, hvalue, himp, heq⟩
      · rw [heq]
        refine ⟨h, fun _ hv => hv, fun ht => ?_, le_rfl⟩
        obtain ⟨s, hs, -⟩ := hknown ht
        exact ⟨s, hs⟩
      · have ht := Graph.lt_size_of_value? hvalue
        have hscores : e.target < p.scores.size := h.scores_size.symm ▸ ht
        rw [heq]
        exact ⟨h.reach hu (hes e List.mem_cons_self) ht _, fun v hv => hv.reach hscores,
          fun _ => ⟨_, Progress.score?_reach_self hscores⟩,
          potential_reach_le Set.finite_univ h.scores_size ht (Set.mem_univ _) himp _ _⟩
    obtain ⟨hq', hkept', htarget', hle'⟩ := ih hq (hkept u hu) fun f hf => hes f (List.mem_cons_of_mem _ hf)
    refine ⟨hq', fun v hv => hkept' v (hkept v hv), fun f hf hft => ?_, hle'.trans hle⟩
    rcases List.mem_cons.mp hf with rfl | hf
    · exact hkept' _ (htarget hft)
    · exact htarget' f hf hft

/-- A round keeps what is covered and lowers the potential over all costs. -/
theorem round? (h : Covering g start goal none p) (hround : Search.round? g goal mode estimate p = some q) :
    Covering g start goal none q ∧ potential Set.univ g q < potential Set.univ g p := by
  obtain ⟨u, k, rest, hpop, hne, rfl⟩ := round?_eq_some hround
  obtain ⟨s, hs⟩ := h.entry k u (OpenSet.pop?_eq_some.mp hpop ▸ List.mem_cons_self)
  have hs' : ({ p with openSet := rest } : Progress κ).score? u = some s := hs
  obtain ⟨hq, -, htargets, hle⟩ := (h.pop hpop).foldl_relax ⟨s, hs'⟩ mode estimate (fun _ he => he) s
  rw [← expand_eq hs'] at hq htargets hle
  refine ⟨⟨hq.scores_size, hq.arrivals_size, hq.scored_start, hq.arrived, hq.origin, hq.onward, hq.reached, hq.entry,
    fun v hv _ => ?_⟩, hle.trans_lt (potential_pop hpop)⟩
  by_cases hv' : v = u
  · subst hv'
    exact .inr ⟨hne, htargets⟩
  · exact hq.closed v hv fun heq => hv' (Option.some.inj heq).symm

end Covering

/-- The rounds between two vertices come to an end whatever the edges cost. -/
theorem initial_rounds_end [Strict κ] [Finite κ] (g : Graph ν κ) (mode : CostMode) (estimate : ν → κ) (goal : Nat)
    (hstart : start < g.size) :
    ∃ n q, n ≤ g.size * (Nat.card κ + 1) + 1 ∧ Rounds g goal mode estimate n (.initial g.size start) q ∧
      Search.round? g goal mode estimate q = none ∧ Covering g start goal none q := by
  have hinit : Covering g start goal none (.initial g.size start) := .initial hstart
  obtain ⟨n, q, hn, hrounds, hend, hq⟩ := rounds_end (fun p q hp hround => Covering.round? hp hround) hinit
  have hbound := potential_departed_le (κ := κ) Set.finite_univ g start
  have hinitial : potential Set.univ g (.initial g.size start : Progress κ) =
      potential Set.univ g (.departed g.size start : Progress κ) + 1 := by
    rw [potential, potential, Nat.add_right_comm]
    rfl
  rw [Set.ncard_univ] at hbound
  exact ⟨n, q, by omega, hrounds, hend, hq⟩

/-! ### Ways back -/

theorem path?_succ_isSome {arrivals : Array (Option Arrival)} {bound : Nat} :
    (path? arrivals (bound + 1) v).isSome = true ↔
      ∀ u a, arrivals[v]? = some (some (.via u a)) → (path? arrivals bound u).isSome = true := by
  rw [path?]
  split
  · rename_i u a hget
    constructor
    · intro h u' a' hget'
      cases hget.symm.trans hget'
      cases hp : path? arrivals bound u with
      | none => simp [hp] at h
      | some x => rfl
    · intro h
      obtain ⟨x, hx⟩ := Option.isSome_iff_exists.mp (h u a hget)
      simp [hx]
  · rename_i hget
    exact ⟨fun _ u a hget' => absurd hget' (hget u a), fun _ => rfl⟩

theorem path?_isSome_succ {arrivals : Array (Option Arrival)} {bound : Nat}
    (h : (path? arrivals bound v).isSome = true) : (path? arrivals (bound + 1) v).isSome = true := by
  induction bound generalizing v with
  | zero => cases h
  | succ bound ih => exact path?_succ_isSome.mpr fun u a hget => ih (path?_succ_isSome.mp h u a hget)

/-- The vertices with a way back that is shorter than a bound. -/
def returning (arrivals : Array (Option Arrival)) (bound : Nat) : Finset Nat :=
  (Finset.range arrivals.size).filter fun v => (path? arrivals bound v).isSome = true

theorem returning_mono (arrivals : Array (Option Arrival)) : Monotone (returning arrivals) :=
  monotone_nat_of_le_succ fun _ => Finset.monotone_filter_right _ fun _ _ => path?_isSome_succ

/-- Once a longer bound gives no more vertices a way back, no bound does. -/
theorem returning_stable {arrivals : Array (Option Arrival)} {bound : Nat}
    (h : returning arrivals (bound + 1) = returning arrivals (bound + 2)) :
    returning arrivals (bound + 2) = returning arrivals (bound + 3) := by
  refine Finset.filter_congr fun v _ => ?_
  rw [path?_succ_isSome, path?_succ_isSome]
  refine forall₃_congr fun u a _ => ?_
  by_cases hu : u < arrivals.size
  · simpa [returning, hu] using Finset.ext_iff.mp h u
  · have hnone : ∀ n, (path? arrivals (n + 1) u).isSome = true := fun n =>
      path?_succ_isSome.mpr fun w b hget => absurd (Array.getElem?_eq_some_iff.mp hget).1 hu
    simp only [hnone]

omit [Cost κ] in
/-- A way back either ends within as many steps as there are vertices, or never. -/
theorem route_eq_endless_iff : p.route v = .endless ↔ ∀ bound, path? p.arrivals bound v = none := by
  have hroute : p.route v = .endless ↔ path? p.arrivals (p.arrivals.size + 1) v = none := by
    unfold Progress.route
    split <;> simp_all
  refine hroute.trans ⟨fun h bound => ?_, fun h => h _⟩
  have hcard : ∀ n, (returning p.arrivals (n + 1)).card ≤ p.arrivals.size := fun n =>
    (Finset.card_filter_le _ _).trans (Finset.card_range _).le
  have hmono : Monotone fun n => (returning p.arrivals (n + 1)).card := fun n m hnm =>
    Finset.card_le_card (returning_mono _ (Nat.succ_le_succ hnm))
  -- The vertices with a way back grow in number with the bound, until they stay the same for good.
  have hlast : ∀ n, p.arrivals.size ≤ n → returning p.arrivals (n + 1) = returning p.arrivals (p.arrivals.size + 1) := by
    intro n hn
    refine (Finset.eq_of_subset_of_card_le (returning_mono _ (Nat.succ_le_succ hn)) (le_of_eq ?_)).symm
    refine Nat.stabilises_of_monotone hmono hcard (fun m hm => ?_) hn
    have heq := Finset.eq_of_subset_of_card_le (returning_mono p.arrivals (Nat.le_succ (m + 1))) hm.ge
    exact congrArg Finset.card (returning_stable heq)
  have hv : v < p.arrivals.size := by
    by_contra hv
    have hsome : (path? p.arrivals (p.arrivals.size + 1) v).isSome = true :=
      path?_succ_isSome.mpr fun w b hget => absurd (Array.getElem?_eq_some_iff.mp hget).1 hv
    rw [h] at hsome
    cases hsome
  have hmem : v ∉ returning p.arrivals (max bound p.arrivals.size + 1) := by
    rw [hlast _ (le_max_right ..)]
    simp [returning, h]
  have hbound : v ∉ returning p.arrivals bound := fun hin =>
    hmem (returning_mono _ ((le_max_left bound p.arrivals.size).trans (Nat.le_succ _)) hin)
  simpa [returning, hv] using hbound

omit [Cost κ] in
theorem Progress.outcome_eq_endless_iff :
    p.outcome goal = .endless ↔ (∃ x, p.openSet.pop? = some x) ∧ ∀ bound, path? p.arrivals bound goal = none := by
  rw [← route_eq_endless_iff, Progress.outcome]
  cases p.openSet.pop? <;> simp

/-- The start's own arrival is overwritten: no way back ends any more. -/
def Overwritten (g : Graph ν κ) (start : Nat) (p : Progress κ) : Prop :=
  p.arrivals.size = g.size ∧ p.arrival? start ≠ some .start

omit [Cost κ] in
/-- However far a way back is followed, it does not end once the start's own arrival is overwritten. -/
theorem Covering.path?_eq_none {busy : Option Nat} (h : Covering g start goal busy p) (hover : Overwritten g start p)
    (hv : Arrived p v) (bound : Nat) : path? p.arrivals bound v = none := by
  -- By the steps back: each arrival leads on to another one, and the only one that would end is gone.
  induction bound generalizing v with
  | zero => rfl
  | succ bound ih =>
    obtain ⟨a, ha⟩ := hv
    have hget : p.arrivals[v]? = some (some a) := Option.join_eq_some_iff.mp ha
    cases a with
    | start => exact absurd (h.origin v ha ▸ ha) hover.2
    | via u action => simp [path?, hget, ih (h.onward v u action ha)]

namespace Overwritten

theorem reach {a : Action} (h : Overwritten g start p) (hv : v < g.size) :
    Overwritten g start (p.reach v s k (.via u a)) := by
  refine ⟨by simp [Progress.reach, h.1], ?_⟩
  by_cases hs : start = v
  · subst hs
    rw [Progress.arrival?_reach_self (h.1.symm ▸ hv)]
    intro heq
    cases heq
  · rw [Progress.arrival?_reach_of_ne hs]
    exact h.2

theorem foldl_relax (h : Overwritten g start p) (es : List (Edge κ)) :
    Overwritten g start (es.foldl (relax g mode estimate u s) p) :=
  foldl_relax_induction (fun _ hq _ _ _ hvalue _ => hq.reach (Graph.lt_size_of_value? hvalue)) h

theorem rounds (hp : Overwritten g start p) (h : Rounds g goal mode estimate n p q) : Overwritten g start q := by
  induction h with
  | refl => exact hp
  | @step _ p _ _ hround _ ih =>
    obtain ⟨u, k, rest, -, -, rfl⟩ := round?_eq_some hround
    have hrest : Overwritten g start { p with openSet := rest } := hp
    exact ih (hrest.foldl_relax _)

/-- A loop at the start that lowers its score overwrites its arrival. -/
theorem of_loop [Strict κ] (hsize : p.arrivals.size = g.size) (hscores : p.scores.size = g.size)
    (hstart : p.score? start = some zero) {es : List (Edge κ)} (he : e ∈ es) (htarget : e.target = start)
    (hless : less (add zero (edgeCost mode e)) zero = true) :
    Overwritten g start (es.foldl (relax g mode estimate u zero) p) := by
  have hlt : start < g.size := hscores ▸ Progress.lt_of_score? hstart
  obtain ⟨before, after, rfl⟩ := List.append_of_mem he
  rw [List.foldl_append, List.foldl_cons]
  refine foldl_relax ?_ after
  -- Until the loop is followed the start keeps its score, or is overwritten already.
  have hbefore : (before.foldl (relax g mode estimate u zero) p).scores.size = g.size ∧
      (before.foldl (relax g mode estimate u zero) p).arrivals.size = g.size ∧
      ((before.foldl (relax g mode estimate u zero) p).score? start = some zero ∨
        Overwritten g start (before.foldl (relax g mode estimate u zero) p)) := by
    refine foldl_relax_induction (P := fun q => q.scores.size = g.size ∧ q.arrivals.size = g.size ∧
      (q.score? start = some zero ∨ Overwritten g start q)) ?_ ⟨hscores, hsize, .inl hstart⟩
    rintro q ⟨hqs, hqa, hq⟩ f - value hvalue -
    have hf := Graph.lt_size_of_value? hvalue
    refine ⟨by simp [Progress.reach, hqs], by simp [Progress.reach, hqa], ?_⟩
    by_cases hfs : start = f.target
    · refine .inr ⟨by simp [Progress.reach, hqa], ?_⟩
      rw [hfs, Progress.arrival?_reach_self (hqa.symm ▸ hf)]
      intro heq
      cases heq
    · exact hq.imp (Progress.score?_reach_of_ne hfs).trans fun hq => hq.reach hf
  obtain ⟨hqs, hqa, hq⟩ := hbefore
  rcases relax_cases g mode estimate u zero (before.foldl (relax g mode estimate u zero) p) e with
    ⟨heq, hknown⟩ | ⟨value, hvalue, -, heq⟩
  · rw [heq]
    refine hq.resolve_left fun hscore => ?_
    obtain ⟨r, hr, hle⟩ := hknown (htarget ▸ hlt)
    rw [htarget, hscore] at hr
    cases hr
    exact hle.not_less hless
  · rw [heq]
    refine ⟨by simp [Progress.reach, hqa], ?_⟩
    rw [← htarget, Progress.arrival?_reach_self (hqa.symm ▸ Graph.lt_size_of_value? hvalue)]
    intro heq
    cases heq

end Overwritten

/-- What starts with a loop of negative cost at the start ends with the start's own arrival overwritten. -/
theorem Rounds.overwritten [Strict κ] (hstart : start < g.size) (hne : start ≠ goal) (he : e ∈ g.successors start)
    (htarget : e.target = start) (hless : less (add zero (edgeCost mode e)) zero = true)
    (h : Rounds g goal mode estimate n (.initial g.size start) q) (hend : round? g goal mode estimate q = none) :
    Overwritten g start q := by
  have hpop : (Progress.initial g.size start : Progress κ).openSet.pop? = some ((start, zero), .empty) :=
    OpenSet.pop?_eq_some.mpr rfl
  have hround : round? g goal mode estimate (.initial g.size start) =
      some (expand g mode estimate start (.departed g.size start)) := by
    simp only [round?, hpop, if_neg hne]
    rfl
  cases h with
  | refl =>
    rw [hround] at hend
    cases hend
  | step hstep hrest =>
    obtain rfl := Option.some.inj (hround.symm.trans hstep)
    refine Overwritten.rounds ?_ hrest
    have hscore : (Progress.departed g.size start : Progress κ).score? start = some zero :=
      (Progress.score?_departed hstart start).trans (if_pos rfl)
    rw [expand_eq hscore]
    exact .of_loop (by simp [Progress.departed, Progress.initial]) (by simp [Progress.departed, Progress.initial])
      hscore he htarget hless

end
end Intendant.Search

/-! ### Searches in doubles -/

namespace Intendant.Graph
open Search
variable {ν : Type} {g : Graph ν Float} {start goal : Nat} {mode : CostMode} {estimate : ν → ν → Float} {target : ν}

/-- The rounds come to an end before the bound runs out, so a search gives the outcome of its last progress. -/
theorem exists_last_progress (g : Graph ν Float) (mode : CostMode) (estimate : ν → ν → Float) (hstart : start < g.size)
    (htarget : g.value? goal = some target) :
    ∃ n q, n < g.enoughRounds ∧ Rounds g goal mode (estimate · target) n (.initial g.size start) q ∧
      round? g goal mode (estimate · target) q = none ∧ Covering g start goal none q ∧
      g.solve start goal mode estimate = q.outcome goal := by
  have hfinite : Finite Float := Finite.of_injective _ injective_bits
  obtain ⟨n, q, hn, hrounds, hend, hq⟩ := initial_rounds_end g mode (estimate · target) goal hstart
  have hbound := lt_enoughRounds g Set.univ
  rw [Set.ncard_univ] at hbound
  refine ⟨n, q, hn.trans_lt hbound, hrounds, hend, hq, ?_⟩
  obtain ⟨value, hvalue⟩ := exists_value? hstart
  rw [solve, within, htarget, hvalue]
  exact run_of_rounds hrounds hend (hn.trans_lt hbound)

/-- A loop of negative cost at the start keeps a search from ending wherever the goal is in reach. -/
theorem solve_endless_of_loop {e : Edge Float} (hne : start ≠ goal) (hgoal : goal < g.size) (hreach : g.Reaches start goal)
    (he : e ∈ g.successors start) (htarget : e.target = start) (hcost : edgeCost mode e < 0) :
    g.solve start goal mode estimate = .endless := by
  have hstart : start < g.size := lt_size_of_mem_successors he
  obtain ⟨target, htarget'⟩ := exists_value? hgoal
  obtain ⟨n, q, -, hrounds, hend, hq, hsolve⟩ := exists_last_progress g mode estimate hstart htarget'
  have hless : Cost.less (Cost.add Cost.zero (edgeCost mode e)) Cost.zero = true :=
    decide_eq_true (Double.zero_add_neg hcost)
  have hover : Overwritten g start q := hrounds.overwritten hstart hne he htarget hless hend
  rw [hsolve, Progress.outcome_eq_endless_iff]
  rcases round?_eq_none hend with hpop | ⟨k, rest, hpop⟩
  · exact absurd hreach (hq.not_reaches hpop hgoal)
  · have hscored := hq.entry k goal (OpenSet.pop?_eq_some.mp hpop ▸ List.mem_cons_self)
    exact ⟨⟨_, hpop⟩, fun bound => hq.path?_eq_none hover (hq.arrived goal hscored) bound⟩

end Intendant.Graph

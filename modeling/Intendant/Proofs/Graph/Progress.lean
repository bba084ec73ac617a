import Intendant.Proofs.Graph.OpenSet
import Intendant.Proofs.Graph.Walk

/-! # Steps of a search

A search changes its progress in two ways only: it takes a vertex out of the open set, and it reaches a vertex
with a better score (`Progress.reach`, `relax_cases`). What all reached vertices preserve, expanding preserves
(`expand_induction`). Every reached vertex lowers the height of a score, and so no expansion raises the
potential, while taking a vertex lowers it. -/

namespace Intendant.Search
variable {ν κ : Type} [Cost κ]

/-- The score that the edges of a walk add up to. -/
def total (mode : CostMode) (es : List (Edge κ)) : κ :=
  es.foldl (fun s e => Cost.add s (edgeCost mode e)) Cost.zero

@[simp] theorem total_concat (mode : CostMode) (es : List (Edge κ)) (e : Edge κ) :
    total mode (es ++ [e]) = Cost.add (total mode es) (edgeCost mode e) := by
  simp [total]

namespace Progress

/-- How a vertex was reached as far as a search knows. -/
def arrival? (p : Progress κ) (v : Nat) : Option Arrival := p.arrivals[v]?.join

/-- The progress once a vertex is reached with a score and queued with a priority. -/
def reach (p : Progress κ) (v : Nat) (score priority : κ) (arrival : Arrival) : Progress κ where
  openSet := p.openSet.push v priority
  scores := p.scores.setIfInBounds v (some score)
  arrivals := p.arrivals.setIfInBounds v (some arrival)

/-- The progress after the start is taken up. -/
def departed (size start : Nat) : Progress κ := { initial size start with openSet := .empty }

theorem score?_departed {size start : Nat} (h : start < size) (v : Nat) :
    (departed size start : Progress κ).score? v = if v = start then some Cost.zero else none := by
  split
  · subst v
    simp [departed, initial, score?, h]
  · rename_i hv
    rw [score?, departed, initial, Array.getElem?_setIfInBounds_ne (Ne.symm hv), Array.getElem?_replicate]
    split <;> rfl

theorem arrival?_departed {size start : Nat} (h : start < size) :
    (departed size start : Progress κ).arrival? start = some .start := by
  simp [departed, initial, arrival?, h]

theorem eq_of_arrival?_departed {size start v : Nat} {a : Arrival} (h : start < size)
    (ha : (departed size start : Progress κ).arrival? v = some a) : v = start ∧ a = .start := by
  by_cases hv : v = start
  · subst hv
    exact ⟨rfl, Option.some.inj (ha.symm.trans (arrival?_departed h))⟩
  · rw [arrival?, departed, initial, Array.getElem?_setIfInBounds_ne (Ne.symm hv), Array.getElem?_replicate] at ha
    split at ha <;> cases ha

variable {p : Progress κ} {v w : Nat} {s k : κ} {a : Arrival}

theorem score?_reach_self (h : v < p.scores.size) : (p.reach v s k a).score? v = some s := by
  simp [reach, score?, h]

theorem score?_reach_of_ne (h : w ≠ v) : (p.reach v s k a).score? w = p.score? w := by
  simp [reach, score?, Array.getElem?_setIfInBounds_ne h.symm]

theorem arrival?_reach_self (h : v < p.arrivals.size) : (p.reach v s k a).arrival? v = some a := by
  simp [reach, arrival?, h]

theorem arrival?_reach_of_ne (h : w ≠ v) : (p.reach v s k a).arrival? w = p.arrival? w := by
  simp [reach, arrival?, Array.getElem?_setIfInBounds_ne h.symm]

omit [Cost κ] in
theorem lt_of_score? (h : p.score? v = some s) : v < p.scores.size := by
  unfold score? at h
  cases hv : p.scores[v]? with
  | none => simp [hv] at h
  | some _ => exact (Array.getElem?_eq_some_iff.mp hv).1

theorem improves_iff : p.improves v s = true ↔ ∀ r, p.score? v = some r → Cost.less s r = true := by
  unfold improves
  split <;> simp_all

end Progress

/-! ### Expanding a vertex -/

section
variable {g : Graph ν κ} {mode : CostMode} {estimate : ν → κ} {v : Nat} {s : κ} {p : Progress κ}

/-- Following an edge reaches its target with a better score, or changes nothing. -/
theorem relax_cases (g : Graph ν κ) (mode : CostMode) (estimate : ν → κ) (v : Nat) (s : κ) (p : Progress κ)
    (e : Edge κ) :
    (relax g mode estimate v s p e = p ∧
      (e.target < g.size → ∃ r, p.score? e.target = some r ∧ Cost.AtMost r (Cost.add s (edgeCost mode e)))) ∨
    ∃ value, g.value? e.target = some value ∧ p.improves e.target (Cost.add s (edgeCost mode e)) = true ∧
      relax g mode estimate v s p e = p.reach e.target (Cost.add s (edgeCost mode e))
        (Cost.add (Cost.add s (edgeCost mode e)) (estimate value)) (.via v e.action) := by
  simp only [relax]
  cases hi : p.improves e.target (Cost.add s (edgeCost mode e)) with
  | false =>
    refine .inl ⟨rfl, fun _ => ?_⟩
    unfold Progress.improves at hi
    split at hi
    · rename_i r hr
      exact ⟨r, hr, hi⟩
    · cases hi
  | true =>
    cases hv : g.value? e.target with
    | none =>
      refine .inl ⟨rfl, fun ht => ?_⟩
      rw [← Graph.value?_isSome, hv] at ht
      cases ht
    | some value => exact .inr ⟨value, rfl, rfl, rfl⟩

/-- What every vertex reached over one of the edges preserves, following the edges preserves. -/
theorem foldl_relax_induction {P : Progress κ → Prop} {es : List (Edge κ)}
    (hstep : ∀ q, P q → ∀ e ∈ es, ∀ value, g.value? e.target = some value →
      q.improves e.target (Cost.add s (edgeCost mode e)) = true →
      P (q.reach e.target (Cost.add s (edgeCost mode e))
        (Cost.add (Cost.add s (edgeCost mode e)) (estimate value)) (.via v e.action)))
    (h0 : P p) : P (es.foldl (relax g mode estimate v s) p) := by
  refine List.foldlRecOn es _ h0 fun q hq e he => ?_
  rcases relax_cases g mode estimate v s q e with ⟨heq, -⟩ | ⟨value, hvalue, himp, heq⟩
  · rw [heq]
    exact hq
  · rw [heq]
    exact hstep q hq e he value hvalue himp

theorem expand_eq (h : p.score? v = some s) :
    expand g mode estimate v p = (g.successors v).foldl (relax g mode estimate v s) p := by
  rw [expand, h, Option.getD_some]

end

/-! ### The potential -/

section
variable {S : Set κ} {g : Graph ν κ} {p : Progress κ} {v : Nat} {s : κ}

/-- How many scores of a set a vertex may still get. -/
noncomputable def height (S : Set κ) : Option κ → Nat
  | some s => {x ∈ S | Cost.less x s = true}.ncard
  | none => S.ncard + 1

theorem height_le (hS : S.Finite) (known : Option κ) : height S known ≤ S.ncard + 1 := by
  cases known with
  | none => exact le_rfl
  | some s => exact (Set.ncard_le_ncard (Set.sep_subset S _) hS).trans (Nat.le_succ _)

theorem height_lt [Cost.Strict κ] (hS : S.Finite) {known : Option κ} (hs : s ∈ S)
    (h : ∀ r, known = some r → Cost.less s r = true) : height S (some s) < height S known := by
  cases known with
  | none => exact Nat.lt_succ_of_le (Set.ncard_le_ncard (Set.sep_subset S _) hS)
  | some r =>
    have hlt := h r rfl
    refine Set.ncard_lt_ncard ⟨fun x hx => ⟨hx.1, Cost.Strict.less_trans hx.2 hlt⟩, fun hsub => ?_⟩
      (hS.subset (Set.sep_subset S _))
    have hs' := (hsub ⟨hs, hlt⟩ : s ∈ {x ∈ S | Cost.less x s = true}).2
    rw [Cost.Strict.less_irrefl] at hs'
    cases hs'

/-- The open entries and the scores that the vertices may still get. -/
noncomputable def potential (S : Set κ) (g : Graph ν κ) (p : Progress κ) : Nat :=
  p.openSet.size + ∑ v ∈ Finset.range g.size, height S (p.score? v)

theorem potential_reach_le [Cost.Strict κ] (hS : S.Finite) (hsize : p.scores.size = g.size) (hv : v < g.size)
    (hs : s ∈ S) (himp : p.improves v s = true) (k : κ) (a : Arrival) :
    potential S g (p.reach v s k a) ≤ potential S g p := by
  have hself : (p.reach v s k a).score? v = some s := Progress.score?_reach_self (hsize.symm ▸ hv)
  have hlt := height_lt hS hs (Progress.improves_iff.mp himp)
  have hsum : ∑ w ∈ Finset.range g.size, height S ((p.reach v s k a).score? w) <
      ∑ w ∈ Finset.range g.size, height S (p.score? w) := by
    refine Finset.sum_lt_sum (fun w _ => ?_) ⟨v, Finset.mem_range.mpr hv, hself ▸ hlt⟩
    by_cases hw : w = v
    · rw [hw, hself]
      exact hlt.le
    · rw [Progress.score?_reach_of_ne hw]
  have hopen : (p.reach v s k a).openSet.size = p.openSet.size + 1 := OpenSet.size_push _ _ _
  unfold potential
  omega

theorem potential_pop {x : Nat × κ} {rest : OpenSet Nat κ} (h : p.openSet.pop? = some (x, rest)) :
    potential S g { p with openSet := rest } < potential S g p := by
  have hsize : p.openSet.size = rest.size + 1 := congrArg List.length (OpenSet.pop?_eq_some.mp h)
  have hscore : ∀ w, ({ p with openSet := rest } : Progress κ).score? w = p.score? w := fun _ => rfl
  simp only [potential, hscore, hsize]
  omega

theorem potential_departed_le (hS : S.Finite) (g : Graph ν κ) (start : Nat) :
    potential S g (.departed g.size start) ≤ g.size * (S.ncard + 1) := by
  have hsum := Finset.sum_le_card_nsmul (Finset.range g.size)
    (fun v => height S ((Progress.departed g.size start : Progress κ).score? v)) (S.ncard + 1) fun _ _ => height_le hS _
  rw [Finset.card_range, smul_eq_mul] at hsum
  exact (Nat.zero_add _).le.trans hsum

end

end Intendant.Search

import Intendant.Proofs.State.Dominance
import Mathlib.Algebra.Order.BigOperators.Group.List
import Mathlib.Analysis.Real.Sqrt

/-! # Ranking by distance

The formula of the distance is written over any numbers (`Objectives.distance`). Over doubles it is the distance of two
states, and over real numbers the one without rounding. Exact distances put the states that are better than the goal and
differ from it first, the closer ones before the farther ones, and then all others, the closer ones first
(`distance_ranks`). -/

namespace Intendant

/-- What the formula of a distance needs of numbers. -/
class Scale (κ : Type) where
  zero : κ
  minusOne : κ
  add : κ → κ → κ
  sub : κ → κ → κ
  mul : κ → κ → κ
  div : κ → κ → κ
  sqrt : κ → κ
  atMost : κ → κ → Bool
  differ : κ → κ → Bool

instance : Scale Float where
  zero := 0.0
  minusOne := -1.0
  add x y := x + y
  sub x y := x - y
  mul x y := x * y
  div x y := x / y
  sqrt := Float.sqrt
  atMost x y := decide (x ≤ y)
  differ x y := x != y

noncomputable instance : Scale ℝ where
  zero := 0
  minusOne := -1
  add x y := x + y
  sub x y := x - y
  mul x y := x * y
  div x y := x / y
  sqrt := Real.sqrt
  atMost x y := decide (x ≤ y)
  differ x y := decide (x ≠ y)

namespace Objectives
open Scale

section
variable {κ : Type} [Scale κ]

/-- Whether a value of an objective does not fall behind its target, under its profile. -/
def favorable (ps : Profiles) (objective : String) (value target : κ) : Bool :=
  if ps.minimizes objective then atMost value target else atMost target value

/-- Whether objectives are as good as others, being the same ones and at least one. -/
def isBetter (mine theirs : KeyMap κ) (ps : Profiles) : Bool :=
  mine.size = theirs.size && !mine.isEmpty &&
    mine.toList.all fun (k, value) =>
      match theirs.get? k with
      | some target => favorable ps k value target
      | none => false

/-- The sum of the squares of all differences, a missing target counting as zero. -/
def squaredDistance (mine theirs : KeyMap κ) : κ :=
  mine.toList.foldl (fun sum (k, value) =>
    let d := sub value ((theirs.get? k).getD zero)
    add sum (mul d d)) zero

/-- The length of the difference, or its negated inverse where objectives are better and differ. -/
def distance (mine theirs : KeyMap κ) (ps : Profiles) : κ :=
  let squares := squaredDistance mine theirs
  if differ squares zero && isBetter mine theirs ps then div minusOne (sqrt squares) else sqrt squares

end

variable {a g : KeyMap ℝ} {ps : Profiles}

/-- The sum of the squared differences. An objective that the goal lacks is compared with zero. -/
noncomputable def squares (a g : KeyMap ℝ) : ℝ := (a.toList.map fun e => (e.2 - (g.get? e.1).getD 0) ^ 2).sum

/-- Some objective differs from the goal. -/
def Apart (a g : KeyMap ℝ) : Prop := ∃ k x, a.get? k = some x ∧ x ≠ (g.get? k).getD 0

theorem squaredDistance_eq (a g : KeyMap ℝ) : squaredDistance a g = squares a g := by
  rw [squares, List.sum_eq_foldl, List.foldl_map]
  simp only [pow_two]
  rfl

theorem square_mem_nonneg {y : ℝ} (hy : y ∈ a.toList.map fun e => (e.2 - (g.get? e.1).getD 0) ^ 2) : 0 ≤ y := by
  obtain ⟨e, -, rfl⟩ := List.mem_map.mp hy
  positivity

theorem squares_nonneg (a g : KeyMap ℝ) : 0 ≤ squares a g := List.sum_nonneg fun _ => square_mem_nonneg

theorem squares_pos_iff : 0 < squares a g ↔ Apart a g := by
  constructor
  · intro hpos
    by_contra hsame
    refine hpos.ne' (List.sum_eq_zero fun y hy => ?_)
    obtain ⟨e, he, rfl⟩ := List.mem_map.mp hy
    have heq : e.2 = (g.get? e.1).getD 0 := by
      by_contra hne
      exact hsame ⟨e.1, e.2, KeyMap.mem_entries_iff.mp he, hne⟩
    rw [heq, sub_self, zero_pow two_ne_zero]
  · rintro ⟨k, x, hx, hne⟩
    have hmem := List.mem_map_of_mem (f := fun e : String × ℝ => (e.2 - (g.get? e.1).getD 0) ^ 2)
      (KeyMap.mem_entries_iff.mpr hx)
    have hle := List.single_le_sum (fun _ => square_mem_nonneg) _ hmem
    exact (sq_pos_of_ne_zero (sub_ne_zero.mpr hne)).trans_le hle

/-! ### Two formulas -/

theorem distance_of_ahead (hbetter : isBetter a g ps = true) (hapart : Apart a g) :
    distance a g ps = -1 / √(squares a g) := by
  have hdiffer : differ (squares a g) zero = true := decide_eq_true (squares_pos_iff.mpr hapart).ne'
  unfold distance
  dsimp only
  rw [squaredDistance_eq, hdiffer, hbetter]
  rfl

theorem distance_of_not_ahead (h : ¬(isBetter a g ps = true ∧ Apart a g)) : distance a g ps = √(squares a g) := by
  unfold distance
  dsimp only
  rw [squaredDistance_eq]
  refine if_neg fun hboth => h ?_
  obtain ⟨hdiffer, hbetter⟩ := Bool.and_eq_true_iff.mp hboth
  have hne : squares a g ≠ 0 := of_decide_eq_true hdiffer
  exact ⟨hbetter, squares_pos_iff.mp ((squares_nonneg a g).lt_of_ne' hne)⟩

theorem inverted_neg {x : ℝ} (hx : 0 < x) : -1 / √x < 0 := div_neg_of_neg_of_pos (by norm_num) (Real.sqrt_pos.mpr hx)

theorem inverted_lt {x y : ℝ} (hx : 0 < x) (hy : 0 < y) : -1 / √x < -1 / √y ↔ x < y := by
  have hx' := Real.sqrt_pos.mpr hx
  have hy' := Real.sqrt_pos.mpr hy
  rw [neg_div, neg_div, neg_lt_neg_iff, one_div_lt_one_div hy' hx', Real.sqrt_lt_sqrt_iff hx.le]

end Objectives

namespace State
open Objectives (squares Apart)

/-- The values of the objectives can be read as real numbers. -/
def Measurable (s : State) : Prop := ∀ k x, s.intent.objectives.get? k = some x → x.isFinite = true

/-- The objectives as real numbers. -/
noncomputable def exact (s : State) : KeyMap ℝ := s.intent.objectives.map Double.real

/-- The distance without rounding. -/
noncomputable def exactDistance (s goal : State) (ps : Profiles) : ℝ := Objectives.distance s.exact goal.exact ps

/-- A state is better than the goal and differs from it. -/
def Ahead (s goal : State) (ps : Profiles) : Prop := s.isBetter goal ps = true ∧ Apart s.exact goal.exact

variable {a b g s goal : State} {ps : Profiles} {x y : Float}

theorem isBetter_eq (s goal : State) (ps : Profiles) :
    s.isBetter goal ps = Objectives.isBetter s.intent.objectives goal.intent.objectives ps := by
  unfold isBetter Objectives.isBetter
  congr 2
  -- The matches on the target agree only case by case.
  funext e
  dsimp only
  cases goal.intent.objectives.get? e.1 <;> rfl

theorem distance_eq (s goal : State) (ps : Profiles) :
    s.distance goal ps = Objectives.distance s.intent.objectives goal.intent.objectives ps := by
  unfold distance Objectives.distance
  rw [isBetter_eq]
  rfl

theorem favorable_exact (hx : x.isFinite = true) (hy : y.isFinite = true) (k : String) :
    Objectives.favorable ps k (Double.real x) (Double.real y) = favorable ps k x y := by
  unfold Objectives.favorable favorable
  split
  · exact decide_eq_decide.mpr (Double.le_iff_real hx hy).symm
  · exact decide_eq_decide.mpr (Double.le_iff_real hy hx).symm

/-- Values are compared as the numbers that they stand for. -/
theorem isBetter_exact (hs : s.Measurable) (hgoal : goal.Measurable) :
    Objectives.isBetter s.exact goal.exact ps = s.isBetter goal ps := by
  have hsize : ∀ t : State, t.exact.size = t.intent.objectives.size := fun t => List.length_map _
  have hempty : s.exact.isEmpty = s.intent.objectives.isEmpty := List.isEmpty_map
  have hlist : s.exact.toList = s.intent.objectives.toList.map fun e => (e.1, Double.real e.2) := rfl
  unfold Objectives.isBetter isBetter
  rw [hsize, hsize, hempty, hlist, List.all_map]
  congr 1
  rw [Bool.eq_iff_iff, List.all_eq_true, List.all_eq_true]
  refine forall₂_congr fun e he => ?_
  have hx := hs e.1 e.2 (KeyMap.mem_entries_iff.mp he)
  dsimp only [Function.comp_apply]
  rw [exact, KeyMap.get?_map]
  cases hy : goal.intent.objectives.get? e.1 with
  | none => rfl
  | some y =>
    dsimp only [Option.map_some]
    rw [favorable_exact hx (hgoal e.1 y hy)]

theorem exactDistance_of_ahead (hs : s.Measurable) (hgoal : goal.Measurable) (h : s.Ahead goal ps) :
    s.exactDistance goal ps = -1 / √(squares s.exact goal.exact) :=
  Objectives.distance_of_ahead ((isBetter_exact hs hgoal).trans h.1) h.2

theorem exactDistance_of_not_ahead (hs : s.Measurable) (hgoal : goal.Measurable) (h : ¬s.Ahead goal ps) :
    s.exactDistance goal ps = √(squares s.exact goal.exact) := by
  refine Objectives.distance_of_not_ahead ?_
  rwa [isBetter_exact hs hgoal]

theorem Ahead.squares_pos (h : s.Ahead goal ps) : 0 < squares s.exact goal.exact := Objectives.squares_pos_iff.mpr h.2

theorem exactDistance_neg_iff (hs : s.Measurable) (hgoal : goal.Measurable) :
    s.exactDistance goal ps < 0 ↔ s.Ahead goal ps := by
  constructor
  · intro hneg
    by_contra h
    rw [exactDistance_of_not_ahead hs hgoal h] at hneg
    exact hneg.not_ge (Real.sqrt_nonneg _)
  · intro h
    rw [exactDistance_of_ahead hs hgoal h]
    exact Objectives.inverted_neg h.squares_pos

theorem exactDistance_eq_zero_iff (hs : s.Measurable) (hgoal : goal.Measurable) :
    s.exactDistance goal ps = 0 ↔ ¬Apart s.exact goal.exact := by
  by_cases h : s.Ahead goal ps
  · have hneg := (exactDistance_neg_iff hs hgoal).mpr h
    exact ⟨fun hzero => absurd hzero hneg.ne, fun hsame => absurd h.2 hsame⟩
  · rw [exactDistance_of_not_ahead hs hgoal h, Real.sqrt_eq_zero (Objectives.squares_nonneg _ _),
      ← Objectives.squares_pos_iff, not_lt]
    exact ⟨Eq.le, fun hle => hle.antisymm (Objectives.squares_nonneg _ _)⟩

/-- First come the states that are ahead of the goal, and among equals the closer one comes first. -/
theorem exactDistance_lt_iff (ha : a.Measurable) (hb : b.Measurable) (hg : g.Measurable) :
    a.exactDistance g ps < b.exactDistance g ps ↔
      (a.Ahead g ps ∧ ¬b.Ahead g ps) ∨
        ((a.Ahead g ps ↔ b.Ahead g ps) ∧ squares a.exact g.exact < squares b.exact g.exact) := by
  by_cases hfirst : a.Ahead g ps <;> by_cases hsecond : b.Ahead g ps
  · rw [exactDistance_of_ahead ha hg hfirst, exactDistance_of_ahead hb hg hsecond,
      Objectives.inverted_lt hfirst.squares_pos hsecond.squares_pos]
    simp [hfirst, hsecond]
  · have hneg := (exactDistance_neg_iff ha hg).mpr hfirst
    have hnonneg := not_lt.mp (mt (exactDistance_neg_iff hb hg).mp hsecond)
    simp [hfirst, hsecond, hneg.trans_le hnonneg]
  · have hneg := (exactDistance_neg_iff hb hg).mpr hsecond
    have hnonneg := not_lt.mp (mt (exactDistance_neg_iff ha hg).mp hfirst)
    simp [hfirst, hsecond, (hneg.trans_le hnonneg).le]
  · rw [exactDistance_of_not_ahead ha hg hfirst, exactDistance_of_not_ahead hb hg hsecond,
      Real.sqrt_lt_sqrt_iff (Objectives.squares_nonneg _ _)]
    simp [hfirst, hsecond]

/-- The distance is the formula over doubles, and without rounding it ranks states: it is negative for those that are
    ahead of the goal, zero for those that have its values, and it orders those of one kind by their sums of squares. -/
theorem distance_ranks (ps : Profiles) :
    (∀ s goal : State, s.distance goal ps = Objectives.distance s.intent.objectives goal.intent.objectives ps) ∧
    ∀ a b g : State, a.Measurable → b.Measurable → g.Measurable →
      (a.exactDistance g ps < 0 ↔ a.isBetter g ps = true ∧ Apart a.exact g.exact) ∧
      (a.exactDistance g ps = 0 ↔ ∀ k x, a.exact.get? k = some x → x = (g.exact.get? k).getD 0) ∧
      (a.exactDistance g ps < 0 → b.exactDistance g ps < 0 →
        (a.exactDistance g ps < b.exactDistance g ps ↔ squares a.exact g.exact < squares b.exact g.exact)) ∧
      (0 ≤ a.exactDistance g ps → 0 ≤ b.exactDistance g ps →
        (a.exactDistance g ps < b.exactDistance g ps ↔ squares a.exact g.exact < squares b.exact g.exact)) ∧
      (a.exactDistance g ps < b.exactDistance g ps ↔
        (a.Ahead g ps ∧ ¬b.Ahead g ps) ∨
          ((a.Ahead g ps ↔ b.Ahead g ps) ∧ squares a.exact g.exact < squares b.exact g.exact)) := by
  refine ⟨fun s goal => distance_eq s goal ps, fun a b g ha hb hg => ?_⟩
  have hneg_a : a.exactDistance g ps < 0 ↔ a.Ahead g ps := exactDistance_neg_iff ha hg
  have hneg_b : b.exactDistance g ps < 0 ↔ b.Ahead g ps := exactDistance_neg_iff hb hg
  refine ⟨hneg_a, ?_, fun hfirst hsecond => ?_, fun hfirst hsecond => ?_, exactDistance_lt_iff ha hb hg⟩
  · rw [exactDistance_eq_zero_iff ha hg, Apart]
    push Not
    rfl
  · rw [exactDistance_lt_iff ha hb hg]
    simp [hneg_a.mp hfirst, hneg_b.mp hsecond]
  · rw [exactDistance_lt_iff ha hb hg]
    simp [mt hneg_a.mpr hfirst.not_gt, mt hneg_b.mpr hsecond.not_gt]

/-- A state with one objective. -/
def rated (x : Float) : State := { intent := { objectives := KeyMap.empty.insert "rate" x } }

theorem measurable_rated {x : Float} (hx : x.isFinite = true) : (rated x).Measurable := by
  intro k y hy
  rw [rated, KeyMap.get?_insert] at hy
  split at hy
  · cases hy
    exact hx
  · cases hy

/-- A state that is far above the goal comes before one that is just below it. -/
theorem distance_ranks_rated :
    (rated 9.0).Measurable ∧ (rated 0.5).Measurable ∧ (rated 1.0).Measurable ∧
      (rated 9.0).exactDistance (rated 1.0) .empty < (rated 0.5).exactDistance (rated 1.0) .empty := by
  have hfar : (rated 9.0).Measurable := measurable_rated (by decide +kernel)
  have hnear : (rated 0.5).Measurable := measurable_rated (by decide +kernel)
  have hgoal : (rated 1.0).Measurable := measurable_rated (by decide +kernel)
  obtain ⟨-, -, -, -, hlt⟩ := (distance_ranks .empty).2 (rated 9.0) (rated 0.5) (rated 1.0) hfar hnear hgoal
  have hdiffer : Double.real 1.0 < Double.real 9.0 := by
    rw [← not_le, ← Double.le_iff_real (by decide +kernel) (by decide +kernel)]
    decide +kernel
  have hfirst : (rated 9.0).Ahead (rated 1.0) .empty :=
    ⟨by decide +kernel, "rate", Double.real 9.0, KeyMap.get?_map Double.real _ _, hdiffer.ne'⟩
  have hsecond : ¬(rated 0.5).Ahead (rated 1.0) .empty := fun h => Bool.false_ne_true (Eq.trans (by decide +kernel) h.1)
  exact ⟨hfar, hnear, hgoal, hlt.mpr (.inl ⟨hfirst, hsecond⟩)⟩

end State
end Intendant

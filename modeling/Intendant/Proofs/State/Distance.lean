import Intendant.State.Dominance
import Intendant.Proofs.Double.Signs

/-! # Distances to a goal

The distance of a state that is better than the goal is not positive, whatever the values of the goal are, and the goal
has no distance from itself, or one that is NaN. -/

namespace Intendant.State
open Double
open Float.Model.UnpackedFloat (Sign)
open Float.Model

variable {s goal : State} {ps : Profiles} {k : String} {value : Float}

/-- A state that is better has comparable values to meet. -/
theorem target_of_isBetter (h : s.isBetter goal ps = true) (hk : (k, value) ∈ s.intent.objectives.toList) :
    ∃ target, goal.intent.objectives.get? k = some target ∧ Comparable target := by
  unfold isBetter at h
  have hmeets := List.all_eq_true.mp (Bool.and_eq_true_iff.mp h).2 _ hk
  dsimp only at hmeets
  split at hmeets
  · rename_i target htarget
    refine ⟨target, htarget, ?_⟩
    unfold favorable at hmeets
    split at hmeets
    · exact (le_iff.mp (of_decide_eq_true hmeets)).2.1
    · exact (le_iff.mp (of_decide_eq_true hmeets)).1
  · cases hmeets

theorem nonneg_squaredDistance (h : s.isBetter goal ps = true)
    (hfinite : ∀ x ∈ s.intent.objectives.toList, x.2.isFinite = true) : 0 ≤ s.squaredDistance goal := by
  unfold squaredDistance
  refine List.foldlRecOn (motive := fun sum : Float => 0 ≤ sum) _ _ (by decide) fun sum hsum x hx => ?_
  obtain ⟨target, htarget, hcomparable⟩ := target_of_isBetter h hx
  dsimp only
  rw [htarget, Option.getD_some]
  exact add_nonneg hsum (nonneg_mul_self (comparable_sub (hfinite x hx) hcomparable))

/-- A better state is at no positive distance. -/
theorem distance_nonpos (h : s.isBetter goal ps = true)
    (hfinite : ∀ x ∈ s.intent.objectives.toList, x.2.isFinite = true) : s.distance goal ps ≤ 0 := by
  have hsquares := nonneg_squaredDistance h hfinite
  unfold distance
  dsimp only
  rw [h, Bool.and_true]
  split
  · rename_i hne
    exact nonpos_of_signed (signed_neg_one_div (signed_sqrt (signed_of_nonneg hsquares hne)))
  · rename_i heq
    obtain ⟨t, hzero⟩ := bne_zero_eq_false.mp (Bool.eq_false_iff.mpr heq)
    exact nonpos_of_zero (unpacked_sqrt_zero hzero)

/-- A sum of the squares of vanishing differences. -/
theorem squaredDistance_self (s : State) :
    unpacked (s.squaredDistance s) = .zero .positive ∨ unpacked (s.squaredDistance s) = .notANumber := by
  unfold squaredDistance
  refine List.foldlRecOn (motive := fun sum : Float => unpacked sum = .zero .positive ∨ unpacked sum = .notANumber) _ _
    (.inl rfl) fun sum hsum x hx => ?_
  have hget : s.intent.objectives.get? x.1 = some x.2 := KeyMap.mem_entries_iff.mp hx
  dsimp only
  rw [hget, Option.getD_some, unpacked_add, unpacked_mul]
  rcases hsum with hsum | hsum <;> rcases unpacked_sub_self x.2 with hd | hd <;> rw [hsum, hd]
  · exact .inl rfl
  all_goals exact .inr rfl

theorem distance_self (s : State) (ps : Profiles) :
    (∃ t, unpacked (s.distance s ps) = .zero t) ∨ unpacked (s.distance s ps) = .notANumber := by
  unfold distance
  dsimp only
  rcases squaredDistance_self s with hzero | hnan
  · rw [bne_zero_eq_false.mpr ⟨_, hzero⟩, Bool.false_and, if_neg Bool.false_ne_true]
    exact .inl ⟨_, unpacked_sqrt_zero hzero⟩
  · have hsqrt : unpacked (s.squaredDistance s).sqrt = .notANumber := by
      rw [unpacked_sqrt, hnan]
      rfl
    right
    split
    · obtain ⟨m, e, h, hone⟩ := unpacked_neg_one
      rw [unpacked_div, hsqrt, hone]
      exact unpack_pack_notANumber
    · exact hsqrt

end Intendant.State

import Intendant.Proofs.Double.Sum

/-! # Rounding to the nearest double

A mantissa with its two residual bits stands for a number between it and the next mantissa (`Stands`), and
shifting keeps it so. With this, a positive number that is nearest to a double is rounded to that double
(`roundWithAccuracy_eq`): this is the only place where the bits of a quotient or a product are looked at. -/

namespace Intendant.Double
open Float.Model
open Float.Model.UnpackedFloat (Sign ExtendedMantissa Accuracy accuracyOfFraction)

/-! ### Residual bits -/

/-- A number between a mantissa and the next one. The residual bits say on which side of the middle. -/
def Stands (x : ExtendedMantissa) (v : ℚ) : Prop :=
  match x.roundBit, x.stickyBit with
  | false, false => v = x.mantissa
  | false, true => x.mantissa < v ∧ v < x.mantissa + 1 / 2
  | true, false => v = x.mantissa + 1 / 2
  | true, true => x.mantissa + 1 / 2 < v ∧ v < x.mantissa + 1

variable {x : ExtendedMantissa} {v : ℚ}

theorem Stands.le (h : Stands x v) : x.mantissa ≤ v := by
  rcases x with ⟨m, _ | _, _ | _⟩ <;> simp only [Stands] at h ⊢ <;> linarith

theorem Stands.lt (h : Stands x v) : v < x.mantissa + 1 := by
  rcases x with ⟨m, _ | _, _ | _⟩ <;> simp only [Stands] at h ⊢ <;> linarith

theorem stands_exact (m : Nat) : Stands (.ofMantissaAndAccuracy m .exact) m := rfl

theorem stands_fraction (m : Nat) {num den : Nat} (h : num < den) :
    Stands (.ofMantissaAndAccuracy m (accuracyOfFraction num den)) (m + num / den) := by
  have hden : (0 : ℚ) < den := by exact_mod_cast (Nat.zero_le num).trans_lt h
  unfold accuracyOfFraction
  split
  · rename_i hzero
    simp [hzero, Stands, ExtendedMantissa.ofMantissaAndAccuracy]
  · rename_i hne
    have hpos : (0 : ℚ) < num / den := div_pos (by exact_mod_cast Nat.pos_of_ne_zero hne) hden
    rcases Nat.lt_trichotomy (2 * num) den with hlt | heq | hgt
    · have hhalf : (num : ℚ) / den < 1 / 2 := by
        rw [div_lt_div_iff₀ hden two_pos]
        exact_mod_cast (by omega : num * 2 < 1 * den)
      rw [compare_lt_iff_lt.mpr hlt]
      show (m : ℚ) < m + num / den ∧ (m : ℚ) + num / den < m + 1 / 2
      exact ⟨by linarith, by linarith⟩
    · have hhalf : (num : ℚ) / den = 1 / 2 := by
        rw [div_eq_div_iff hden.ne' two_ne_zero]
        exact_mod_cast (by omega : num * 2 = 1 * den)
      rw [compare_eq_iff_eq.mpr heq, hhalf]
      rfl
    · have hhalf : 1 / 2 < (num : ℚ) / den := by
        rw [div_lt_div_iff₀ two_pos hden]
        exact_mod_cast (by omega : 1 * den < num * 2)
      have hone : (num : ℚ) / den < 1 := by
        rw [div_lt_one hden]
        exact_mod_cast h
      rw [compare_gt_iff_gt.mpr hgt]
      show (m : ℚ) + 1 / 2 < m + num / den ∧ (m : ℚ) + num / den < m + 1
      exact ⟨by linarith, by linarith⟩

theorem Stands.shiftRightOne (h : Stands x v) : Stands x.shiftRightOne (v / 2) := by
  rcases x with ⟨m, round, sticky⟩
  have hdiv : (m : ℚ) = 2 * (m / 2 : Nat) + (m % 2 : Nat) := by exact_mod_cast (Nat.div_add_mod m 2).symm
  rcases Nat.mod_two_eq_zero_or_one m with hm | hm
  · have hbit : (m % 2 != 0) = false := by simp [hm]
    rw [hm, Nat.cast_zero] at hdiv
    cases round <;> cases sticky <;> simp only [Stands, ExtendedMantissa.shiftRightOne, hbit, Bool.or_true, Bool.or_false] at h ⊢ <;>
      first
        | linarith
        | exact ⟨by linarith, by linarith⟩
  · have hbit : (m % 2 != 0) = true := by simp [hm]
    rw [hm, Nat.cast_one] at hdiv
    cases round <;> cases sticky <;> simp only [Stands, ExtendedMantissa.shiftRightOne, hbit, Bool.or_true, Bool.or_false] at h ⊢ <;>
      first
        | linarith
        | exact ⟨by linarith, by linarith⟩

theorem Stands.shiftRight (h : Stands x v) (k : Nat) : Stands (x >>> k) (v / 2 ^ k) := by
  induction k with
  | zero => simpa [HShiftRight.hShiftRight, Nat.repeat] using h
  | succ k ih =>
    have hstep : x >>> (k + 1) = (x >>> k).shiftRightOne := rfl
    rw [hstep, pow_succ, ← div_div]
    exact ih.shiftRightOne

/-- A number is rounded to a mantissa: it is at most one half away, and less where the mantissa is odd. -/
def RoundsTo (v : ℚ) (m : Nat) : Prop :=
  if m % 2 = 0 then m - 1 / 2 ≤ v ∧ v ≤ m + 1 / 2 else m - 1 / 2 < v ∧ v < m + 1 / 2

theorem RoundsTo.bounds {m : Nat} (h : RoundsTo v m) : m - 1 / 2 ≤ v ∧ v ≤ m + 1 / 2 := by
  unfold RoundsTo at h
  split at h
  · exact h
  · exact ⟨h.1.le, h.2.le⟩

theorem Stands.roundedMantissa (h : Stands x v) {m : Nat} (hm : RoundsTo v m) : x.roundedMantissa = m := by
  obtain ⟨hlo, hhi⟩ := hm.bounds
  have hcases : m = x.mantissa ∨ m = x.mantissa + 1 := by
    have h1 : (x.mantissa : ℚ) < m + 1 := by linarith [h.le]
    have h2 : (m : ℚ) < x.mantissa + 2 := by linarith [h.lt]
    have h1 : x.mantissa < m + 1 := by exact_mod_cast h1
    have h2 : m < x.mantissa + 2 := by exact_mod_cast h2
    omega
  rcases x with ⟨n, round, sticky⟩
  replace hcases : (m = n ∧ (m : ℚ) = n) ∨ (m = n + 1 ∧ (m : ℚ) = n + 1) :=
    hcases.imp (fun h => ⟨h, by exact_mod_cast h⟩) (fun h => ⟨h, by exact_mod_cast h⟩)
  cases round <;> cases sticky <;> simp only [Stands] at h <;>
    simp only [ExtendedMantissa.roundedMantissa, ExtendedMantissa.accuracy, Accuracy.roundToNearestEven]
  · -- exact
    rcases hcases with ⟨rfl, -⟩ | ⟨-, hcast⟩
    · rfl
    · linarith
  · -- below the middle
    rcases hcases with ⟨rfl, -⟩ | ⟨-, hcast⟩
    · rfl
    · linarith
  · -- in the middle, where only an even mantissa is meant
    have heven : m % 2 = 0 := by
      by_contra hodd
      rw [RoundsTo, if_neg hodd] at hm
      rcases hcases with ⟨-, hcast⟩ | ⟨-, hcast⟩ <;> linarith [hm.1, hm.2]
    omega
  · -- above the middle
    rcases hcases with ⟨-, hcast⟩ | ⟨rfl, -⟩
    · linarith
    · rfl

/-! ### The exponent and the mantissa -/

/-- A power with the sign of its exponent taken apart. -/
theorem zpow_mul_pow_toNat {b : ℚ} (hb : b ≠ 0) (z : Int) : b ^ z * b ^ (-z).toNat = b ^ z.toNat := by
  rw [← zpow_natCast, ← zpow_natCast, ← zpow_add₀ hb]
  congr 1
  omega

/-- The mantissa at the exponent that it is rounded to. -/
def rounded (m : Nat) (e : Int) (acc : Accuracy) : Nat :=
  (ExtendedMantissa.ofMantissaAndAccuracy m acc >>> (target m e - e).toNat).roundedMantissa

theorem mantissa_ofMantissaAndAccuracy (m : Nat) (acc : Accuracy) :
    (ExtendedMantissa.ofMantissaAndAccuracy m acc).mantissa = m := by
  rcases acc with _ | _ | _ | _ <;> rfl

theorem rounded_le {m : Nat} {e : Int} (acc : Accuracy) (he : e ≤ target m e) : rounded m e acc ≤ 2 ^ 53 := by
  have hbound := (roundedMantissa_bounds (ExtendedMantissa.ofMantissaAndAccuracy m acc >>> (target m e - e).toNat)).2
  rw [mantissa_shiftRight, mantissa_ofMantissaAndAccuracy] at hbound
  have hfit : m / 2 ^ (target m e - e).toNat < 2 ^ 53 := div_lt_of_log2 (by unfold target at he ⊢; omega)
  exact hbound.trans hfit

/-- A mantissa that overflows by rounding is halved, and the exponent makes up for it. -/
theorem roundWithAccuracy_cases (s : Sign) {m : Nat} {e : Int} (acc : Accuracy) (he : e ≤ target m e) :
    (rounded m e acc = 0 ∧ UnpackedFloat.roundWithAccuracy Format.binary64 s m e acc = .zero s) ∨
      (∃ h, rounded m e acc < 2 ^ 53 ∧
        UnpackedFloat.roundWithAccuracy Format.binary64 s m e acc = .finite s (rounded m e acc) (target m e) h) ∨
      (rounded m e acc = 2 ^ 53 ∧
        UnpackedFloat.roundWithAccuracy Format.binary64 s m e acc = .finite s (2 ^ 52) (target m e + 1) (by decide)) := by
  have hle := rounded_le acc he
  have hge : -1074 ≤ target m e := le_max_right _ _
  have hexp : e + ((target m e - e).toNat : Int) = target m e := by omega
  have hfirst : UnpackedFloat.shiftToTargetExponent Format.binary64 m e acc =
      (ExtendedMantissa.ofMantissaAndAccuracy m acc >>> (target m e - e).toNat, e + ((target m e - e).toNat : Int)) := rfl
  have hround : (ExtendedMantissa.ofMantissaAndAccuracy m acc >>> (target m e - e).toNat).roundedMantissa =
      rounded m e acc := rfl
  unfold UnpackedFloat.roundWithAccuracy
  simp only [hfirst, hexp, hround]
  rcases shiftToTargetExponent_rounded hle hge with ⟨hlt, hsecond⟩ | ⟨heq, hsecond⟩
  · simp only [hsecond]
    by_cases hzero : rounded m e acc = 0
    · exact Or.inl ⟨hzero, dif_pos hzero⟩
    · exact Or.inr (Or.inl ⟨Nat.pos_of_ne_zero hzero, hlt, dif_neg hzero⟩)
  · simp only [hsecond]
    exact Or.inr (Or.inr ⟨heq, rfl⟩)

/-- The place of the leading bit decides the exponent, unless the number is below the normal range. -/
theorem target_eq {m : Nat} {e t : Int} (hle : (m : ℚ) * 2 ^ e ≤ v) (hlt : v < (m + 1) * 2 ^ e) (he : e ≤ target m e)
    (hnormal : 2 ^ (52 + t) ≤ v ∨ t = -1074) (ht : -1074 ≤ t) (hv : v < 2 ^ (53 + t)) : target m e = t := by
  have hpow {i j : Int} : (2 : ℚ) ^ i < 2 ^ j ↔ i < j := zpow_lt_zpow_iff_right₀ one_lt_two
  by_cases hm : m = 0
  · subst hm
    simp only [target, Nat.log2_zero] at he ⊢
    rcases hnormal with hnormal | rfl
    · have hsmall : v < 2 ^ e := by simpa using hlt
      have := hpow.mp (hnormal.trans_lt hsmall)
      omega
    · omega
  · have hlo : (2 : ℚ) ^ (m.log2 + e) ≤ v := by
      refine le_trans ?_ hle
      rw [zpow_add₀ two_ne_zero, zpow_natCast]
      have : (2 : ℚ) ^ m.log2 ≤ m := by exact_mod_cast Nat.log2_self_le hm
      exact mul_le_mul_of_nonneg_right this (by positivity)
    have hhi : v < (2 : ℚ) ^ (m.log2 + 1 + e) := by
      refine hlt.trans_le ?_
      rw [zpow_add₀ two_ne_zero, zpow_add_one₀ two_ne_zero, zpow_natCast]
      have : ((m + 1 : Nat) : ℚ) ≤ (2 ^ (m.log2 + 1) : Nat) := by exact_mod_cast Nat.lt_log2_self
      push_cast [pow_succ] at this
      exact mul_le_mul_of_nonneg_right this (by positivity)
    have hbelow := hpow.mp (hlo.trans_lt hv)
    unfold target at he ⊢
    rcases hnormal with hnormal | rfl
    · have := hpow.mp (hnormal.trans_lt hhi)
      omega
    · omega

/-! ### The nearest double -/

/-- A positive number is rounded to a mantissa with an exponent. Below a power of two the exponent is one
    less, so there the number is rounded up to twice the mantissa. -/
def Near (v : ℚ) (m : Nat) (e : Int) : Prop :=
  (RoundsTo (v / 2 ^ e) m ∧ (2 ^ (52 + e) ≤ v ∨ e = -1074)) ∨
    (m = 2 ^ 52 ∧ -1074 < e ∧ v < 2 ^ (52 + e) ∧ RoundsTo (v / 2 ^ (e - 1)) (2 ^ 53))

theorem Near.lt {m : Nat} {e : Int} (h : Near v m e) (hc : Canonical m e) : v < 2 ^ (53 + e) := by
  rcases h with ⟨hround, -⟩ | ⟨-, -, hbelow, -⟩
  · have hhi := hround.bounds.2
    rw [div_le_iff₀ (by positivity)] at hhi
    refine hhi.trans_lt ?_
    rw [zpow_add₀ two_ne_zero]
    have : (m : ℚ) + 1 ≤ (2 : ℚ) ^ (53 : Int) := by exact_mod_cast hc.mantissa_lt
    exact mul_lt_mul_of_pos_right (by linarith) (by positivity)
  · exact hbelow.trans_le (zpow_le_zpow_right₀ one_le_two (by omega))

/-- A number that is rounded to a positive double is at least half the least of them. -/
theorem Near.le {m : Nat} {e : Int} (h : Near v m e) (hm : 0 < m) (hc : Canonical m e) : 2 ^ (-1075 : Int) ≤ v := by
  have hhalf : ∀ {t : Int} {k : Nat}, -1074 ≤ t → 0 < k → RoundsTo (v / 2 ^ t) k → 2 ^ (-1075 : Int) ≤ v := by
    intro t k ht hk hround
    have hlo := hround.bounds.1
    rw [le_div_iff₀ (by positivity)] at hlo
    have hone : (1 : ℚ) ≤ k := by exact_mod_cast hk
    calc (2 : ℚ) ^ (-1075 : Int) ≤ 2 ^ (t - 1) := zpow_le_zpow_right₀ one_le_two (by omega)
      _ = 1 / 2 * 2 ^ t := by
        rw [zpow_sub_one₀ two_ne_zero]
        ring
      _ ≤ (k - 1 / 2) * 2 ^ t := mul_le_mul_of_nonneg_right (by linarith) (by positivity)
      _ ≤ v := hlo
  rcases h with ⟨hround, -⟩ | ⟨-, he, -, hround⟩
  · exact hhalf hc.exponent_ge hm hround
  · exact hhalf (t := e - 1) (by omega) (by decide) hround

theorem rounded_eq {m : Nat} {e : Int} {acc : Accuracy} (he : e ≤ target m e)
    (hstands : Stands (.ofMantissaAndAccuracy m acc) (v / 2 ^ e)) {M : Nat} (hM : RoundsTo (v / 2 ^ target m e) M) :
    rounded m e acc = M := by
  have hshift := hstands.shiftRight (target m e - e).toNat
  have hv : v / 2 ^ e / 2 ^ (target m e - e).toNat = v / 2 ^ target m e := by
    rw [div_div, ← zpow_natCast, ← zpow_add₀ two_ne_zero]
    congr 2
    omega
  rw [hv] at hshift
  exact hshift.roundedMantissa hM

theorem roundWithAccuracy_eq (s : Sign) {m : Nat} {e : Int} {acc : Accuracy} (he : e ≤ target m e)
    (hstands : Stands (.ofMantissaAndAccuracy m acc) (v / 2 ^ e)) {M : Nat} {E : Int} (hM : 0 < M)
    (hc : Canonical M E) (hnear : Near v M E) :
    UnpackedFloat.roundWithAccuracy Format.binary64 s m e acc = .finite s M E hM := by
  have hpos : (0 : ℚ) < 2 ^ e := by positivity
  have hle := hstands.le
  have hlt := hstands.lt
  rw [mantissa_ofMantissaAndAccuracy, le_div_iff₀ hpos] at hle
  rw [mantissa_ofMantissaAndAccuracy, div_lt_iff₀ hpos] at hlt
  have hv := hnear.lt hc
  rcases hnear with ⟨hround, hnormal⟩ | ⟨rfl, hnormal, hbelow, hround⟩
  · have htarget := target_eq hle hlt he hnormal hc.exponent_ge hv
    have hrounded := rounded_eq he hstands (htarget ▸ hround)
    rcases roundWithAccuracy_cases s acc he with ⟨h, -⟩ | ⟨h, -, heq⟩ | ⟨h, -⟩
    · omega
    · rw [heq]
      simp only [hrounded, htarget]
    · have := hc.mantissa_lt
      omega
  -- Just below a power of two the number is rounded at one exponent less, where the mantissa overflows.
  · have hnormal' : (2 : ℚ) ^ (52 + (E - 1)) ≤ v := by
      have hlo := hround.bounds.1
      rw [le_div_iff₀ (by positivity)] at hlo
      refine le_trans ?_ hlo
      rw [zpow_add₀ two_ne_zero]
      exact mul_le_mul_of_nonneg_right (by norm_num) (by positivity)
    have hhalf : v < 2 ^ (53 + (E - 1)) := by
      rwa [show 53 + (E - 1) = 52 + E by ring]
    have htarget := target_eq hle hlt he (Or.inl hnormal') (by omega) hhalf
    have hrounded := rounded_eq he hstands (htarget ▸ hround)
    rcases roundWithAccuracy_cases s acc he with ⟨h, -⟩ | ⟨h, hlt, -⟩ | ⟨-, heq⟩
    · omega
    · omega
    · rw [heq]
      simp only [htarget, sub_add_cancel]

end Intendant.Double

import Intendant.Decimal.Reading
import Intendant.Proofs.Double.Bits
import Intendant.Proofs.Double.Scientific

/-! # Reading decimals

A decimal that is nearest to a finite double is read as that double (`read?_eq`), and whatever is read is
finite (`isFinite_of_read?`). -/

namespace Intendant.Decimal
open Float.Model
open Float.Model.UnpackedFloat (Sign)
open Double (Canonical Near unpacked)

/-! ### Sizes -/

theorem digitCount_pos (n : Nat) : 0 < digitCount n := Nat.length_toDigits_pos

theorem lt_pow_digitCount (n : Nat) : n < 10 ^ digitCount n :=
  (Nat.length_toDigits_le_iff (by decide) (digitCount_pos n)).mp le_rfl

theorem pow_digitCount_le {n : Nat} (hn : 0 < n) : 10 ^ (digitCount n - 1) ≤ n := by
  by_contra hlt
  by_cases hone : digitCount n = 1
  · simp [hone] at hlt
    omega
  · have hpos := digitCount_pos n
    have := (Nat.length_toDigits_le_iff (by decide) (by omega)).mpr (Nat.lt_of_not_le hlt)
    unfold digitCount at hpos hone this
    omega

theorem digitCount_le_log2 (n : Nat) : digitCount n ≤ n.log2 + 1 :=
  (Nat.length_toDigits_le_iff (by decide) (by omega)).mpr
    (Nat.lt_log2_self.trans_le (Nat.pow_le_pow_left (by decide) _))

variable {M : Nat} {E : Int}

/-! ### Nearest doubles -/

/-- Only a positive decimal is nearest to a positive double. -/
theorem pos_of_near {n : Nat} {e : Int} (hM : 0 < M) (hc : Canonical M E) (h : Near (n * 10 ^ e) M E) : 0 < n := by
  have hlt : (0 : ℚ) < n * 10 ^ e := (by positivity : (0 : ℚ) < 2 ^ (-1075 : Int)).trans_le (h.le hM hc)
  exact_mod_cast pos_of_mul_pos_left hlt (by positivity)

/-- The guards of `nearest` are far outside the range of doubles. -/
theorem size_bounds {n : Nat} (hn : 0 < n) {e : Int} (hM : 0 < M) (hc : Canonical M E) (hE : E ≤ 971)
    (h : Near (n * 10 ^ e) M E) : -400 ≤ e + digitCount n ∧ e + digitCount n ≤ 400 := by
  have hpow {i j : Int} : (10 : ℚ) ^ i < 10 ^ j ↔ i < j := zpow_lt_zpow_iff_right₀ (by norm_num)
  constructor
  · have hhi : (n * 10 ^ e : ℚ) < 10 ^ (e + digitCount n) := by
      rw [add_comm e, zpow_add₀ (by norm_num), zpow_natCast]
      have : (n : ℚ) < 10 ^ digitCount n := by exact_mod_cast lt_pow_digitCount n
      exact mul_lt_mul_of_pos_right this (by positivity)
    -- Compared as powers of smaller powers, as a power with so large an exponent is not computed.
    have hsmall : (10 : ℚ) ^ (-400 : Int) < 2 ^ (-1075 : Int) := by
      have : ((2 ^ 215) ^ 5 : ℚ) < (10 ^ 80) ^ 5 := pow_lt_pow_left₀ (by norm_num) (by norm_num) (by norm_num)
      rw [← pow_mul, ← pow_mul] at this
      exact (inv_lt_inv₀ (by positivity) (by positivity)).mpr this
    have := hpow.mp (hsmall.trans ((h.le hM hc).trans_lt hhi))
    omega
  · have hlo : (10 : ℚ) ^ (digitCount n - 1 + e) ≤ n * 10 ^ e := by
      have hcount := digitCount_pos n
      rw [zpow_add₀ (by norm_num), show ((digitCount n : Int) - 1) = (digitCount n - 1 : Nat) by omega, zpow_natCast]
      have : (10 : ℚ) ^ (digitCount n - 1) ≤ n := by exact_mod_cast pow_digitCount_le hn
      exact mul_le_mul_of_nonneg_right this (by positivity)
    have hlarge : (2 : ℚ) ^ (53 + E) < 10 ^ (400 : Int) := by
      refine (zpow_le_zpow_right₀ one_le_two (by omega : 53 + E ≤ 1024)).trans_lt ?_
      have : ((2 ^ 128) ^ 8 : ℚ) < (10 ^ 50) ^ 8 := pow_lt_pow_left₀ (by norm_num) (by norm_num) (by norm_num)
      rw [← pow_mul, ← pow_mul] at this
      exact this
    have := hpow.mp ((hlo.trans_lt (h.lt hc)).trans hlarge)
    omega

theorem unpacked_nearest {n : Nat} (hn : 0 < n) {e : Int} (hM : 0 < M) (hc : Canonical M E) (hE : E ≤ 971)
    (h : Near (n * 10 ^ e) M E) : unpacked (nearest n e) = .finite .positive M E hM := by
  obtain ⟨hlo, hhi⟩ := size_bounds hn hM hc hE h
  have hcount := digitCount_le_log2 n
  have hpos := digitCount_pos n
  simp only [nearest]
  rw [if_neg hn.ne', if_neg (by omega), if_neg (by omega)]
  split
  · have he : e = if true then -(e.natAbs : Int) else e.natAbs := by
      rw [if_pos rfl]
      omega
    exact Double.unpacked_ofScientific hM hc hn true e.natAbs he (by omega) (by omega) hE h
  · have he : e = if false then -(e.natAbs : Int) else e.natAbs := by
      rw [if_neg Bool.false_ne_true]
      omega
    exact Double.unpacked_ofScientific hM hc hn false e.natAbs he (by omega) (by omega) hE h

/-! ### Reading -/

/-- The double nearest to a signed decimal, if it is finite. -/
def read? (negative : Bool) (coefficient : Nat) (exponent : Int) : Option Float :=
  let x := nearest coefficient exponent
  if x.isInf then none else some (if negative then -x else x)

theorem read?_of_finite {x y : Float} {negative : Bool} {n : Nat} {e : Int} (hy : nearest n e = y) (hfinite : y.isFinite = true)
    (hx : unpacked x = if negative then (unpacked y).neg else unpacked y) : read? negative n e = some x := by
  have hinf : y.isInf = false := Double.not_isInf hfinite
  have hsigned : (if negative then -y else y) = x := by
    cases negative with
    | false => exact Double.eq_of_unpacked hfinite hx.symm
    | true => exact Double.eq_of_unpacked (Double.isFinite_neg hfinite) ((Double.unpacked_neg hfinite).trans hx.symm)
  simp only [read?, hy, hinf, Bool.false_eq_true, if_false, hsigned]

/-- The double of a sign and a number that is nearest to its magnitude. -/
theorem read?_eq {x : Float} (negative : Bool) {n : Nat} (hn : 0 < n) {e : Int} (hM : 0 < M) (hc : Canonical M E)
    (hE : E ≤ 971) (h : Near (n * 10 ^ e) M E)
    (hx : unpacked x = .finite (if negative then .negative else .positive) M E hM) : read? negative n e = some x := by
  have hnearest := unpacked_nearest hn hM hc hE h
  refine read?_of_finite rfl ?_ ?_
  · show (unpacked (nearest n e)).isFinite = true
    rw [hnearest]
    rfl
  · rw [hx, hnearest]
    cases negative <;> rfl

theorem read?_zero {x : Float} (negative : Bool) (e : Int)
    (hx : unpacked x = .zero (if negative then .negative else .positive)) : read? negative 0 e = some x := by
  refine read?_of_finite (y := 0.0) (by simp [nearest]) rfl ?_
  rw [hx]
  cases negative <;> rfl

theorem nonneg_nearest (n : Nat) (e : Int) : 0 ≤ nearest n e := by
  simp only [nearest]
  split_ifs
  · decide
  · decide
  · decide
  · exact Double.nonneg_scientific _ _ _
  · exact Double.nonneg_scientific _ _ _

/-- Whatever is read is finite. -/
theorem isFinite_of_read? {negative : Bool} {n : Nat} {e : Int} {x : Float} (h : read? negative n e = some x) :
    x.isFinite = true := by
  simp only [read?] at h
  split at h
  · cases h
  · rename_i hinf
    have hfinite := Double.isFinite_of_nonneg (nonneg_nearest n e) (by simpa using hinf)
    injection h with h
    subst h
    split
    · exact Double.isFinite_neg hfinite
    · exact hfinite

end Intendant.Decimal

import Intendant.Proofs.Double.Bits
import Intendant.Proofs.Double.Rounding

/-! # Decimals as doubles

`Float.ofScientific` multiplies or divides by a power of ten and rounds once, on the short way with doubles
that are exact and on the long way with natural numbers. On both ways a decimal that is nearest to a double
becomes that double (`unpacked_ofScientific`). -/

namespace Intendant.Double
open Float.Model
open Float.Model.UnpackedFloat (Sign ExtendedMantissa Accuracy accuracyOfFraction)

/-! ### Products and quotients -/

variable {M : Nat} {E : Int} (hM : 0 < M) (hc : Canonical M E)

theorem le_target_of_large {m : Nat} {e : Int} (hm : 2 ^ 52 ≤ m) : e ≤ target m e := by
  have hlog : 52 ≤ m.log2 := (Nat.le_log2 (by omega)).mpr hm
  unfold target
  omega

theorem mul_finite {m₁ m₂ : Nat} {e₁ e₂ : Int} (h₁ : 0 < m₁) (h₂ : 0 < m₂) :
    UnpackedFloat.mul Format.binary64 (.finite .positive m₁ e₁ h₁) (.finite .positive m₂ e₂ h₂) =
      UnpackedFloat.roundWithAccuracy Format.binary64 .positive (m₁ * m₂) (e₁ + e₂) .exact := rfl

include hc in
theorem mul_eq {m₁ m₂ : Nat} {e₁ e₂ : Int} (h₁ : 0 < m₁) (h₂ : 0 < m₂) (hlarge : 2 ^ 52 ≤ m₁ * m₂)
    (hnear : Near (m₁ * 2 ^ e₁ * (m₂ * 2 ^ e₂)) M E) :
    UnpackedFloat.mul Format.binary64 (.finite .positive m₁ e₁ h₁) (.finite .positive m₂ e₂ h₂) =
      .finite .positive M E hM := by
  have hvalue : (m₁ * 2 ^ e₁ * (m₂ * 2 ^ e₂) : ℚ) / 2 ^ (e₁ + e₂) = (m₁ * m₂ : Nat) := by
    rw [zpow_add₀ two_ne_zero, Nat.cast_mul]
    field_simp
  rw [mul_finite]
  exact roundWithAccuracy_eq .positive (le_target_of_large hlarge) (hvalue ▸ stands_exact _) hM hc hnear

/-- The quotient has a full mantissa, or an exponent below which no double has one. What is left over from
    the division of the mantissas decides the residual bits. -/
theorem divCore_spec {m₁ m₂ : Nat} {e₁ e₂ : Int} (h₁ : 0 < m₁) (h₂ : 0 < m₂) {m : Nat} {e : Int} {acc : Accuracy}
    (h : UnpackedFloat.divCore Format.binary64 m₁ e₁ m₂ e₂ = (m, e, acc)) :
    e ≤ target m e ∧ Stands (.ofMantissaAndAccuracy m acc) (m₁ * 2 ^ e₁ / (m₂ * 2 ^ e₂) / 2 ^ e) := by
  set t := min (e₁ - e₂) (max (m₁.log2 + 1 + e₁ - (m₂.log2 + 1 + e₂) - 53) (-1074)) with ht
  set k := (e₁ - e₂ - t).toNat with hk
  have hcore : UnpackedFloat.divCore Format.binary64 m₁ e₁ m₂ e₂ =
      ((m₁ <<< k) / m₂, t, accuracyOfFraction ((m₁ <<< k) % m₂) m₂) := rfl
  rw [hcore] at h
  obtain ⟨rfl, rfl, rfl⟩ : (m₁ <<< k) / m₂ = m ∧ t = e ∧ accuracyOfFraction ((m₁ <<< k) % m₂) m₂ = acc := by
    simpa using h
  rw [Nat.shiftLeft_eq]
  constructor
  · by_cases hlow : t ≤ -1074
    · exact hlow.trans (le_max_right _ _)
    · refine le_target_of_large ((Nat.le_div_iff_mul_le h₂).mpr ?_)
      calc 2 ^ 52 * m₂ ≤ 2 ^ 52 * 2 ^ (m₂.log2 + 1) := Nat.mul_le_mul_left _ Nat.lt_log2_self.le
        _ ≤ 2 ^ m₁.log2 * 2 ^ k := by
          rw [← Nat.pow_add, ← Nat.pow_add]
          exact Nat.pow_le_pow_right two_pos (by omega)
        _ ≤ m₁ * 2 ^ k := Nat.mul_le_mul_right _ (Nat.log2_self_le h₁.ne')
  · have hden : (m₂ : ℚ) ≠ 0 := by exact_mod_cast h₂.ne'
    have hdivmod : ((m₁ * 2 ^ k : Nat) : ℚ) = m₂ * (m₁ * 2 ^ k / m₂ : Nat) + (m₁ * 2 ^ k % m₂ : Nat) := by
      exact_mod_cast (Nat.div_add_mod (m₁ * 2 ^ k) m₂).symm
    have hexp : (2 : ℚ) ^ e₁ = 2 ^ k * 2 ^ t * 2 ^ e₂ := by
      rw [← zpow_natCast, ← zpow_add₀ two_ne_zero, ← zpow_add₀ two_ne_zero]
      congr 1
      omega
    have hvalue : (m₁ * 2 ^ e₁ / (m₂ * 2 ^ e₂) / 2 ^ t : ℚ) =
        (m₁ * 2 ^ k / m₂ : Nat) + (m₁ * 2 ^ k % m₂ : Nat) / m₂ := by
      rw [Nat.cast_mul, Nat.cast_pow, Nat.cast_ofNat] at hdivmod
      rw [hexp]
      field_simp
      linarith
    rw [hvalue]
    exact stands_fraction _ (Nat.mod_lt _ h₂)

include hc in
theorem div_eq {m₁ m₂ : Nat} {e₁ e₂ : Int} (h₁ : 0 < m₁) (h₂ : 0 < m₂)
    (hnear : Near (m₁ * 2 ^ e₁ / (m₂ * 2 ^ e₂)) M E) :
    UnpackedFloat.div Format.binary64 (.finite .positive m₁ e₁ h₁) (.finite .positive m₂ e₂ h₂) =
      .finite .positive M E hM := by
  obtain ⟨⟨m, e, acc⟩, hcore⟩ : ∃ r, UnpackedFloat.divCore Format.binary64 m₁ e₁ m₂ e₂ = r := ⟨_, rfl⟩
  obtain ⟨he, hstands⟩ := divCore_spec h₁ h₂ hcore
  have hdiv : UnpackedFloat.div Format.binary64 (.finite .positive m₁ e₁ h₁) (.finite .positive m₂ e₂ h₂) =
      UnpackedFloat.roundWithAccuracy Format.binary64 .positive m e acc := by
    simp only [UnpackedFloat.div, hcore]
    rfl
  rw [hdiv]
  exact roundWithAccuracy_eq .positive he hstands hM hc hnear

/-! ### Exact doubles -/

/-- A double is exactly a positive number, with a full mantissa. -/
def Exactly (a : Float) (v : ℚ) : Prop :=
  ∃ m e h, unpacked a = .finite .positive m e h ∧ 2 ^ 52 ≤ m ∧ (m : ℚ) * 2 ^ e = v

theorem near_self {m : Nat} {e : Int} (h : 2 ^ 52 ≤ m ∨ e = -1074) : Near (m * 2 ^ e) m e := by
  refine Or.inl ⟨?_, h.imp (fun hm => ?_) id⟩
  · rw [mul_div_cancel_right₀ _ (by positivity)]
    unfold RoundsTo
    split <;> constructor <;> linarith
  · rw [zpow_add₀ two_ne_zero]
    have : (2 : ℚ) ^ (52 : Int) ≤ m := by exact_mod_cast hm
    exact mul_le_mul_of_nonneg_right this (by positivity)

theorem stands_self (m : Nat) (e : Int) : Stands (.ofMantissaAndAccuracy m .exact) (m * 2 ^ e / 2 ^ e) := by
  rw [mul_div_cancel_right₀ _ (by positivity)]
  exact stands_exact m

theorem exactly_toFloat {n : Nat} (hn : 0 < n) (hlt : n < 2 ^ 53) : Exactly n.toUInt64.toFloat n := by
  have hlog : n.log2 ≤ 52 := by
    have := (Nat.log2_lt hn.ne').mpr hlt
    omega
  -- The mantissa is shifted until it is full, by which it loses nothing.
  obtain ⟨k, hk⟩ : ∃ k, n.log2 + k = 52 := ⟨52 - n.log2, by omega⟩
  have hfull : 2 ^ 52 ≤ n * 2 ^ k := by
    rw [← hk, Nat.pow_add]
    exact Nat.mul_le_mul_right _ (Nat.log2_self_le hn.ne')
  have hfit : n * 2 ^ k < 2 ^ 53 := by
    calc n * 2 ^ k < 2 ^ (n.log2 + 1) * 2 ^ k := Nat.mul_lt_mul_of_pos_right Nat.lt_log2_self (by positivity)
      _ = 2 ^ 53 := by
        rw [← Nat.pow_add]
        congr 1
        omega
  have hpos : 0 < n * 2 ^ k := by positivity
  have hround : UnpackedFloat.ofUInt64 Format.binary64 n.toUInt64 = .finite .positive (n * 2 ^ k) (-k) hpos := by
    have hsize : n.toUInt64.toNat = n := by
      simp
      omega
    have hcmp : compare (n : Int) 0 = .gt := compare_gt_iff_gt.mpr (by exact_mod_cast hn)
    have htarget : Format.binary64.targetExponent (totalExponent n 0) = -k := by
      show max ((n.log2 : Int) + 1 + 0 - 53) (-1074) = -k
      omega
    have hshift : (0 - (-k : Int)).toNat = k := by omega
    simp only [UnpackedFloat.ofUInt64, UnpackedFloat.ofNat, UnpackedFloat.ofInt, hsize, UnpackedFloat.normalize, hcmp,
      UnpackedFloat.round, Int.toNat_natCast, htarget, UnpackedFloat.decreaseExponent, hshift, Nat.shiftLeft_eq]
    rw [zero_sub]
    exact roundWithAccuracy_eq .positive (le_target_of_large hfull) (stands_self _ _) hpos
      ⟨hfit, by omega, Or.inl hfull⟩ (near_self (Or.inl hfull))
  refine ⟨n * 2 ^ k, -k, hpos, ?_, hfull, ?_⟩
  · show (pack (UnpackedFloat.ofUInt64 Format.binary64 n.toUInt64)).unpack = _
    rw [hround, unpack_pack_finite ⟨hfit, by omega, Or.inl hfull⟩, if_pos (by omega)]
  · rw [zpow_neg, zpow_natCast]
    push_cast
    field_simp

/-- Whether a double is a power of ten with a full mantissa. -/
def isPowerOfTen (a : Float) (i : Nat) : Bool :=
  match unpacked a with
  | .finite .positive m e _ => 2 ^ 52 ≤ m && m * 2 ^ e.toNat = 10 ^ i * 2 ^ (-e).toNat
  | _ => false

theorem isPowerOfTen_table : ∀ i : Fin 23, isPowerOfTen Float.exactlyRepresentablePowersOfTen[i] i = true := by
  decide +kernel

theorem exactly_powerOfTen (i : Fin 23) : Exactly Float.exactlyRepresentablePowersOfTen[i] (10 ^ i.val) := by
  have h := isPowerOfTen_table i
  unfold isPowerOfTen at h
  split at h
  · rename_i m e hpos hunpacked
    simp only [Bool.and_eq_true, decide_eq_true_eq] at h
    obtain ⟨hfull, hvalue⟩ := h
    refine ⟨m, e, hpos, hunpacked, hfull, ?_⟩
    have hexp : (2 : ℚ) ^ e = 2 ^ e.toNat / 2 ^ (-e).toNat :=
      eq_div_of_mul_eq (by positivity) (zpow_mul_pow_toNat two_ne_zero e)
    have hcast : (m : ℚ) * 2 ^ e.toNat = 10 ^ i.val * 2 ^ (-e).toNat := by exact_mod_cast hvalue
    rw [hexp, ← mul_div_assoc, hcast, mul_div_cancel_right₀ _ (by positivity)]
  · cases h

/-! ### Decimals -/

section
variable {a b : Float} {u w : ℚ} (ha : Exactly a u) (hb : Exactly b w) (hE : E ≤ 971)
include hc ha hb hE

theorem unpacked_mul_exactly (hnear : Near (u * w) M E) : unpacked (a * b) = .finite .positive M E hM := by
  obtain ⟨m₁, e₁, h₁, hx, hfull, rfl⟩ := ha
  obtain ⟨m₂, e₂, h₂, hy, -, rfl⟩ := hb
  show (pack (UnpackedFloat.mul Format.binary64 (unpacked a) (unpacked b))).unpack = _
  rw [hx, hy, mul_eq hM hc h₁ h₂ (hfull.trans (Nat.le_mul_of_pos_right _ h₂)) hnear, unpack_pack_finite hc, if_pos hE]

theorem unpacked_div_exactly (hnear : Near (u / w) M E) : unpacked (a / b) = .finite .positive M E hM := by
  obtain ⟨m₁, e₁, h₁, hx, -, rfl⟩ := ha
  obtain ⟨m₂, e₂, h₂, hy, -, rfl⟩ := hb
  show (pack (UnpackedFloat.div Format.binary64 (unpacked a) (unpacked b))).unpack = _
  rw [hx, hy, div_eq hM hc h₁ h₂ hnear, unpack_pack_finite hc, if_pos hE]

end

include hc in
/-- The long way, where the exponent must not be so large that the power is not even computed. -/
theorem ofScientific_eq {n : Nat} (hn : 0 < n) {e : Int} (hlarge : e ≤ 2048) (hsmall : -(2048 + n.log2) ≤ e)
    (hnear : Near (n * 10 ^ e) M E) :
    UnpackedFloat.ofScientific Format.binary64 n e = .finite .positive M E hM := by
  have hguard : (2 : Int) ^ Format.binary64.exponentBits = 2048 := by norm_num
  have hten : 0 < 10 ^ e.natAbs := by positivity
  unfold UnpackedFloat.ofScientific
  rw [dif_neg hn.ne', if_neg (by omega), if_neg (by omega)]
  by_cases he : 0 ≤ e
  · rw [if_pos he]
    obtain ⟨k, rfl⟩ := Int.eq_ofNat_of_zero_le he
    have hfull : 2 ^ 52 ≤ (n <<< 53) * 10 ^ k := by
      rw [Nat.shiftLeft_eq]
      calc 2 ^ 52 ≤ 1 * 2 ^ 53 * 1 := by norm_num
        _ ≤ n * 2 ^ 53 * 10 ^ k := Nat.mul_le_mul (Nat.mul_le_mul_right _ hn) (Nat.one_le_pow _ _ (by decide))
    have hvalue : ((n <<< 53 : Nat) * 2 ^ (-53 : Int) * ((10 ^ k : Nat) * 2 ^ (0 : Int)) : ℚ) = n * 10 ^ (k : Int) := by
      rw [Nat.shiftLeft_eq, zpow_natCast, zpow_zero, mul_one, zpow_neg]
      push_cast
      rw [mul_inv_cancel_right₀ (by positivity)]
    rw [← hvalue] at hnear
    exact mul_eq hM hc _ _ hfull hnear
  · rw [if_neg he]
    obtain ⟨k, hk⟩ : ∃ k : Nat, e = -k := ⟨e.natAbs, by omega⟩
    subst hk
    have hvalue : (n * 2 ^ (0 : Int) / ((10 ^ k : Nat) * 2 ^ (0 : Int)) : ℚ) = n * 10 ^ (-k : Int) := by
      rw [zpow_zero, mul_one, mul_one, zpow_neg, zpow_natCast, div_eq_mul_inv]
      push_cast
      rfl
    rw [← hvalue] at hnear
    simp only [neg_neg, Int.toNat_natCast]
    exact div_eq hM hc _ _ hnear

include hc in
/-- A decimal that is nearest to a double becomes that double. -/
theorem unpacked_ofScientific {n : Nat} (hn : 0 < n) (negative : Bool) (k : Nat) {e : Int}
    (he : e = if negative then -(k : Int) else k) (hlarge : e ≤ 2048) (hsmall : -(2048 + n.log2) ≤ e) (hE : E ≤ 971)
    (hnear : Near (n * 10 ^ e) M E) :
    unpacked (Float.ofScientific n negative k) = .finite .positive M E hM := by
  unfold Float.ofScientific
  split
  · rename_i hexact
    have hpower := exactly_powerOfTen ⟨k, by omega⟩
    have hcount := exactly_toFloat hn hexact.1
    cases negative with
    | false =>
      rw [he, if_neg Bool.false_ne_true, zpow_natCast] at hnear
      exact unpacked_mul_exactly hM hc hcount hpower hE hnear
    | true =>
      rw [he, if_pos rfl, zpow_neg, zpow_natCast, ← div_eq_mul_inv] at hnear
      exact unpacked_div_exactly hM hc hcount hpower hE hnear
  · have hsigned : (if negative = true then Int.negOfNat k else Int.ofNat k) = e := by
      rw [he, Int.negOfNat_eq]
      rfl
    show (pack (UnpackedFloat.ofScientific Format.binary64 n _)).unpack = _
    rw [hsigned, ofScientific_eq hM hc hn hlarge hsmall hnear, unpack_pack_finite hc, if_pos hE]

/-! ### Counts -/

theorem isFinite_unpack_pack {s : Sign} {m : Nat} {e : Int} {h : 0 < m} (he : e ≤ 971) :
    (pack (.finite s m e h)).unpack.isFinite = true := by
  have hb : (e + (Format.binary64.exponentBias : Nat) + (52 : Nat)).toNat = (e + 1075).toNat := by simp [add_assoc]
  unfold Float.Model.unpack Float.Model.pack UnpackedFloat.pack
  simp only [mantissaBits_eq, hb]
  rw [if_neg (by omega)]
  split
  · rw [unpack_packComponents_ofNat s (by omega), if_neg (by omega)]
    split_ifs <;> rfl
  · rw [unpack_packComponents_ofNat s (by decide), if_neg (by decide), if_pos rfl]
    split_ifs <;> rfl

theorem isFinite_round (s : Sign) {m : Nat} {e : Int} (acc : Accuracy) (he : e ≤ target m e) (hsmall : target m e ≤ 970) :
    (pack (UnpackedFloat.roundWithAccuracy Format.binary64 s m e acc)).unpack.isFinite = true := by
  rcases roundWithAccuracy_cases s acc he with ⟨-, h⟩ | ⟨_, -, h⟩ | ⟨-, h⟩ <;> rw [h]
  · rw [unpack_pack_zero]
    rfl
  · exact isFinite_unpack_pack (by omega)
  · exact isFinite_unpack_pack (by omega)

theorem isFinite_ofNat {n : Nat} (hn : n ≤ 2 ^ 64) : (Float.ofNat n).isFinite = true := by
  rcases Nat.eq_zero_or_pos n with rfl | hpos
  · decide +kernel
  show (unpacked (Float.ofScientific n false 0)).isFinite = true
  unfold Float.ofScientific
  split
  · rename_i hexact
    have hone := exactly_powerOfTen 0
    have hcount := exactly_toFloat hpos hexact.1
    obtain ⟨m, e, h, hm, hfull, hvalue⟩ := hcount
    have hnear : Near (n * 10 ^ (0 : Fin 23).val) m e := by
      rw [← hvalue]
      simpa using near_self (Or.inl hfull)
    have hproduct := unpacked_mul_exactly h (canonical_of_unpacked hm) (exactly_toFloat hpos hexact.1) hone
      (exponent_le_of_unpacked hm) hnear
    exact congrArg UnpackedFloat.isFinite hproduct
  · show (pack (UnpackedFloat.ofScientific Format.binary64 n 0)).unpack.isFinite = true
    have hguard : (2 : Int) ^ Format.binary64.exponentBits = 2048 := by norm_num
    have hsize : n <<< 53 * 10 ^ (0 : Int).toNat = n * 2 ^ 53 := by
      rw [Nat.shiftLeft_eq]
      simp
    have hlog : (n * 2 ^ 53).log2 < 118 := (Nat.log2_lt (by positivity)).mpr (by omega)
    unfold UnpackedFloat.ofScientific
    rw [dif_neg hpos.ne', if_neg (by omega), if_neg (by omega), if_pos le_rfl, mul_finite]
    simp only [mantissaBits_eq, hsize]
    refine isFinite_round _ _ (le_target_of_large (by omega)) ?_
    unfold target
    omega

/-! ### No decimal is NaN -/

theorem nonneg_div {x : UnpackedFloat} {m : Nat} {e : Int} {h : 0 < m} (hx : Nonneg x) :
    Nonneg (UnpackedFloat.div Format.binary64 x (.finite .positive m e h)) := by
  rcases hx.cases with rfl | ⟨s, rfl⟩ | ⟨m₁, e₁, h₁, rfl⟩
  · exact rfl
  · trivial
  · exact nonneg_roundWithAccuracy _ _ _ _

theorem nonneg_div_finite {a b : Float} {m : Nat} {e : Int} {h : 0 < m} (ha : 0 ≤ a)
    (hb : unpacked b = .finite .positive m e h) : 0 ≤ a / b := by
  have hdiv : unpacked (a / b) = (pack (UnpackedFloat.div Format.binary64 (unpacked a) (unpacked b))).unpack := rfl
  rw [nonneg_iff, hdiv, hb]
  exact nonneg_unpack_pack (nonneg_div (nonneg_iff.mp ha))

theorem nonneg_scientific (n : Nat) (negative : Bool) (k : Nat) : 0 ≤ Float.ofScientific n negative k := by
  unfold Float.ofScientific
  split
  · rename_i hexact
    obtain ⟨m, e, h, hpower, -⟩ := exactly_powerOfTen ⟨k, by omega⟩
    have hcount : 0 ≤ n.toUInt64.toFloat := nonneg_iff.mpr (nonneg_unpack_pack (nonneg_normalize _ _ _))
    cases negative with
    | false => exact nonneg_mul_finite hcount hpower
    | true => exact nonneg_div_finite hcount hpower
  · refine nonneg_iff.mpr (nonneg_unpack_pack ?_)
    generalize (if negative = true then Int.negOfNat k else Int.ofNat k) = e
    unfold UnpackedFloat.ofScientific
    split_ifs
    · trivial
    · rfl
    · trivial
    · exact nonneg_mul rfl
    · exact nonneg_div rfl

theorem nonneg_ofNat (n : Nat) : 0 ≤ Float.ofNat n := nonneg_scientific n false 0

end Intendant.Double

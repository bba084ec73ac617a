import Intendant.Proofs.Double.Packing

/-! # Sums of doubles

A sum is computed exactly at the smaller exponent and then rounded. Rounding never goes below a double that
the exact sum reaches, so adding a double that is not negative never leads below the first summand
(`le_add_of_nonneg`). This is all that a search needs of its scores. -/

namespace Intendant.Double
open Float.Model
open Float.Model.UnpackedFloat (Sign)

/-! ### Rounding -/

open UnpackedFloat (ExtendedMantissa)

theorem mantissa_shiftRight (x : ExtendedMantissa) (k : Nat) : (x >>> k).mantissa = x.mantissa / 2 ^ k := by
  induction k with
  | zero => simp [HShiftRight.hShiftRight, Nat.repeat]
  | succ k ih =>
    show (x >>> k).mantissa / 2 = _
    rw [ih, Nat.div_div_eq_div_mul, Nat.pow_succ]

theorem roundedMantissa_bounds (x : ExtendedMantissa) :
    x.mantissa ≤ x.roundedMantissa ∧ x.roundedMantissa ≤ x.mantissa + 1 := by
  rcases x with ⟨m, _ | _, _ | _⟩ <;>
    simp only [ExtendedMantissa.roundedMantissa, ExtendedMantissa.accuracy,
      UnpackedFloat.Accuracy.roundToNearestEven] <;> omega

/-- The exponent to which a mantissa with an exponent is rounded. -/
def target (m : Nat) (e : Int) : Int := max (m.log2 + 1 + e - 53) (-1074)

theorem shiftToTargetExponent_exact (m : Nat) (e : Int) :
    UnpackedFloat.shiftToTargetExponent Format.binary64 m e .exact =
      ((⟨m, false, false⟩ : ExtendedMantissa) >>> (target m e - e).toNat, e + (target m e - e).toNat) := rfl

/-- A mantissa that fits is not shifted again, and one that overflowed by rounding is shifted by one. -/
theorem shiftToTargetExponent_rounded {m : Nat} {e : Int} (hm : m ≤ 2 ^ 53) (he : -1074 ≤ e) :
    (m < 2 ^ 53 ∧ UnpackedFloat.shiftToTargetExponent Format.binary64 m e .exact = (⟨m, false, false⟩, e)) ∨
      m = 2 ^ 53 ∧
        UnpackedFloat.shiftToTargetExponent Format.binary64 m e .exact = (⟨2 ^ 52, false, false⟩, e + 1) := by
  rw [shiftToTargetExponent_exact]
  rcases Nat.lt_or_eq_of_le hm with hm | rfl
  · have hlog : m.log2 ≤ 52 := by
      by_cases h0 : m = 0
      · simp [h0]
      · have := (Nat.log2_lt h0).mpr hm
        omega
    have ht : (target m e - e).toNat = 0 := by unfold target; omega
    exact Or.inl ⟨hm, by rw [ht]; simp [HShiftRight.hShiftRight, Nat.repeat]⟩
  · have ht : (target (2 ^ 53) e - e).toNat = 1 := by
      unfold target
      rw [Nat.log2_two_pow]
      omega
    exact Or.inr ⟨rfl, by rw [ht]; rfl⟩

theorem div_lt_of_log2 {m k : Nat} (h : m.log2 ≤ 52 + k) : m / 2 ^ k < 2 ^ 53 := by
  rw [Nat.div_lt_iff_lt_mul (by positivity), ← Nat.pow_add]
  exact Nat.lt_log2_self.trans_le (Nat.pow_le_pow_right (by decide) (by omega))

theorem le_div_of_log2 {m k : Nat} (hm : m ≠ 0) (h : m.log2 = 52 + k) : 2 ^ 52 ≤ m / 2 ^ k := by
  rw [Nat.le_div_iff_mul_le (by positivity), ← Nat.pow_add, ← h]
  exact Nat.log2_self_le hm

/-- Rounding keeps the sign and never goes below a mantissa that fits. -/
theorem roundWithAccuracy_spec (s : Sign) {m : Nat} {e : Int} (hm : 0 < m) (he : -1074 ≤ e) (ht : e ≤ target m e) :
    ∃ m' e' h, UnpackedFloat.roundWithAccuracy Format.binary64 s m e .exact = .finite s m' e' h ∧ Canonical m' e' ∧
      (target m e < e' ∨ target m e = e' ∧ m / 2 ^ (target m e - e).toNat ≤ m') := by
  set k := (target m e - e).toNat with hk
  have hk' : (k : Int) = target m e - e := by omega
  obtain ⟨hlo, hhi⟩ := roundedMantissa_bounds ((⟨m, false, false⟩ : ExtendedMantissa) >>> k)
  rw [mantissa_shiftRight] at hlo hhi
  simp only at hlo hhi
  set r := ((⟨m, false, false⟩ : ExtendedMantissa) >>> k).roundedMantissa with hr
  have hfit : m / 2 ^ k < 2 ^ 53 := div_lt_of_log2 (by unfold target at hk'; omega)
  have hfull : 2 ^ 52 ≤ m / 2 ^ k ∨ target m e = -1074 := by
    by_cases h : target m e = -1074
    · exact Or.inr h
    · exact Or.inl (le_div_of_log2 hm.ne' (by unfold target at hk' h; omega))
  have hpos : 0 < r := by
    rcases hfull with h | h
    · omega
    · have : k = 0 := by omega
      rw [this] at hlo
      simp at hlo
      omega
  have hexp : e + k = target m e := by omega
  unfold UnpackedFloat.roundWithAccuracy
  simp only [shiftToTargetExponent_exact m e, ← hk, ← hr, hexp]
  have hge : -1074 ≤ target m e := by omega
  rcases shiftToTargetExponent_rounded (m := r) (e := target m e) (by omega) hge with ⟨hlt, h⟩ | ⟨-, h⟩
  · simp only [h, dif_neg hpos.ne']
    exact ⟨r, target m e, hpos, rfl, ⟨hlt, hge, hfull.imp (fun h => by omega) id⟩, Or.inr ⟨rfl, hlo⟩⟩
  · simp only [h]
    exact ⟨2 ^ 52, target m e + 1, by decide, rfl, ⟨by decide, by omega, Or.inl (by decide)⟩, Or.inl (by omega)⟩

/-! ### Sums -/

theorem unpacked_add (a b : Float) :
    unpacked (a + b) = (pack (UnpackedFloat.add Format.binary64 (unpacked a) (unpacked b))).unpack := rfl

/-- The sum of two mantissas at their smaller exponent, rounded. -/
theorem add_finite {m₁ m₂ : Nat} {e₁ e₂ : Int} (h₁ : 0 < m₁) (h₂ : 0 < m₂) (hc₁ : Canonical m₁ e₁)
    (hc₂ : Canonical m₂ e₂) :
    ∃ m e h, UnpackedFloat.add Format.binary64 (.finite .positive m₁ e₁ h₁) (.finite .positive m₂ e₂ h₂) =
      .finite .positive m e h ∧ Canonical m e ∧ (e₁ < e ∨ e₁ = e ∧ m₁ ≤ m) := by
  set e₀ := min e₁ e₂ with he₀
  set m₀ := m₁ <<< (e₁ - e₀).toNat + m₂ <<< (e₂ - e₀).toNat with hm₀
  have hle : m₁ * 2 ^ (e₁ - e₀).toNat ≤ m₀ := by
    rw [hm₀, Nat.shiftLeft_eq]
    exact Nat.le_add_right _ _
  have hpos : 0 < m₀ := Nat.lt_of_lt_of_le (by positivity) hle
  have hlog : m₁.log2 + (e₁ - e₀).toNat ≤ m₀.log2 := by
    rw [Nat.le_log2 hpos.ne', Nat.pow_add]
    exact (Nat.mul_le_mul_right _ (Nat.log2_self_le h₁.ne')).trans hle
  -- The sum is no shorter than the first summand, so its exponent is no less.
  have htarget : e₁ ≤ target m₀ e₀ := by
    have hfull : 2 ^ 52 ≤ m₁ → 52 ≤ m₁.log2 := (Nat.le_log2 h₁.ne').mpr
    have := hc₁.full
    have := hc₁.exponent_ge
    unfold target
    omega
  have hround : UnpackedFloat.add Format.binary64 (.finite .positive m₁ e₁ h₁) (.finite .positive m₂ e₂ h₂) =
      UnpackedFloat.roundWithAccuracy Format.binary64 .positive m₀ e₀ .exact := by
    have hshift : (e₀ - Format.binary64.targetExponent (totalExponent m₀ e₀)).toNat = 0 := by
      show (e₀ - target m₀ e₀).toNat = 0
      omega
    have hcmp : compare (m₀ : Int) 0 = .gt := compare_gt_iff_gt.mpr (by exact_mod_cast hpos)
    have hsum : ((m₁ <<< (e₁ - e₀).toNat : Nat) : Int) + (m₂ <<< (e₂ - e₀).toNat : Nat) = (m₀ : Int) := by
      rw [hm₀]
      push_cast
      rfl
    simp only [UnpackedFloat.add, UnpackedFloat.decreaseExponent, Sign.apply, ← he₀, hsum, UnpackedFloat.normalize,
      hcmp, UnpackedFloat.round, Int.toNat_natCast, hshift, Nat.shiftLeft_zero, Nat.cast_zero, sub_zero]
  obtain ⟨m, e, h, heq, hc, hbound⟩ := roundWithAccuracy_spec .positive hpos (e := e₀)
    (by have := hc₁.exponent_ge; have := hc₂.exponent_ge; omega) (by omega)
  refine ⟨m, e, h, hround.trans heq, hc, ?_⟩
  rcases hbound with hlt | ⟨heq, hdiv⟩
  · exact Or.inl (by omega)
  · rcases htarget.lt_or_eq with hlt | hsame
    · exact Or.inl (by omega)
    · refine Or.inr ⟨hsame.trans heq, hdiv.trans' ?_⟩
      rw [Nat.le_div_iff_mul_le (by positivity), ← hsame]
      exact hle

/-- Adding a double that is not negative never leads below the first summand. -/
theorem le_add_of_nonneg {a b : Float} (ha : 0 ≤ a) (hb : 0 ≤ b) : a ≤ a + b := by
  rw [le_iff, Comparable, Comparable, unpacked_add]
  rcases (nonneg_iff.mp ha).cases with hx | ⟨s, hx⟩ | ⟨m₁, e₁, h₁, hx⟩
  · rcases (nonneg_iff.mp hb).cases with hy | ⟨t, hy⟩ | ⟨m, e, h, hy⟩ <;>
      simp [hx, hy, UnpackedFloat.add, unpack_pack_infinity]
  · rcases (nonneg_iff.mp hb).cases with hy | ⟨t, hy⟩ | ⟨m, e, h, hy⟩ <;> rw [hx, hy]
    · simp [UnpackedFloat.add, unpack_pack_infinity, rank, Prod.Lex.toLex_le_toLex]
    · simp only [UnpackedFloat.add]
      split <;> simp [unpack_pack_zero, rank]
    · exact ⟨by simp, le_pack_finite (canonical_of_unpacked hy) (by simp [rank, Prod.Lex.toLex_le_toLex])⟩
  · rcases (nonneg_iff.mp hb).cases with hy | ⟨t, hy⟩ | ⟨m₂, e₂, h₂, hy⟩ <;> rw [hx, hy]
    · simp [UnpackedFloat.add, unpack_pack_infinity, rank, Prod.Lex.toLex_le_toLex]
    · exact ⟨by simp, le_pack_finite (canonical_of_unpacked hx) le_rfl⟩
    · obtain ⟨m, e, h, heq, hc, hbound⟩ := add_finite h₁ h₂ (canonical_of_unpacked hx) (canonical_of_unpacked hy)
      rw [heq]
      refine ⟨by simp, le_pack_finite hc ?_⟩
      simpa [rank, Prod.Lex.toLex_le_toLex] using hbound

theorem add_nonneg {a b : Float} (ha : 0 ≤ a) (hb : 0 ≤ b) : 0 ≤ a + b :=
  Double.le_trans ha (le_add_of_nonneg ha hb)

/-- A negative double stays negative when it is added to zero. -/
theorem zero_add_neg {a : Float} (ha : a < 0) : 0 + a < 0 := by
  have h0 : unpacked 0 = .zero .positive := rfl
  obtain ⟨hc, -, hlt⟩ := lt_iff.mp ha
  rw [lt_iff, Comparable, Comparable, unpacked_add, h0]
  rw [h0] at hlt
  cases hx : unpacked a with
  | notANumber => exact absurd hx hc
  | infinity s =>
    rw [hx] at hlt
    simpa [UnpackedFloat.add, unpack_pack_infinity] using hlt
  | zero s => simp [hx, rank] at hlt
  | finite s m e h =>
    obtain rfl : s = .negative := by
      cases s with
      | negative => rfl
      | positive => simp [hx, rank, Prod.Lex.toLex_lt_toLex] at hlt
    have hsum : UnpackedFloat.add Format.binary64 (.zero .positive) (.finite .negative m e h) =
        .finite .negative m e h := rfl
    rw [hsum, unpack_pack_finite (canonical_of_unpacked hx)]
    split <;> simp [rank, Prod.Lex.toLex_lt_toLex]

/-! ### Multiples -/

theorem nonneg_roundWithAccuracy (spec : Format) (m : Nat) (e : Int) (acc : UnpackedFloat.Accuracy) :
    Nonneg (UnpackedFloat.roundWithAccuracy spec .positive m e acc) := by
  unfold UnpackedFloat.roundWithAccuracy
  dsimp only
  split <;> simp [Nonneg]

theorem nonneg_mul {x : UnpackedFloat} {m : Nat} {e : Int} {h : 0 < m} (hx : Nonneg x) :
    Nonneg (UnpackedFloat.mul Format.binary64 x (.finite .positive m e h)) := by
  rcases hx.cases with rfl | ⟨s, rfl⟩ | ⟨m₁, e₁, h₁, rfl⟩
  · exact rfl
  · trivial
  · exact nonneg_roundWithAccuracy _ _ _ _

theorem nonneg_normalize (spec : Format) (n : Nat) (e : Int) : Nonneg (UnpackedFloat.normalize spec n e .positive) := by
  unfold UnpackedFloat.normalize
  split
  · rename_i h
    have := compare_lt_iff_lt.mp h
    omega
  · trivial
  · exact nonneg_roundWithAccuracy _ _ _ _

/-- A product with a positive number is not negative. -/
theorem nonneg_mul_finite {a b : Float} {m : Nat} {e : Int} {h : 0 < m} (ha : 0 ≤ a)
    (hb : unpacked b = .finite .positive m e h) : 0 ≤ a * b := by
  have hmul : unpacked (a * b) = (pack (UnpackedFloat.mul Format.binary64 (unpacked a) (unpacked b))).unpack := rfl
  rw [nonneg_iff, hmul, hb]
  exact nonneg_unpack_pack (nonneg_mul (nonneg_iff.mp ha))

end Intendant.Double

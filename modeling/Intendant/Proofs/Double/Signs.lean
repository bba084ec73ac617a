import Intendant.Proofs.Double.Bits
import Intendant.Proofs.Double.Sum

/-! # Signs of differences, squares, roots and quotients

Rounding may overflow or lose bits but it keeps the sign, so squares and roots are not negative, whatever the size of
the operands, and minus one over a root has the sign of minus one. Only the difference and the product of infinities
can fail to be numbers. -/

namespace Intendant.Double
open Float.Model
open Float.Model.UnpackedFloat (Sign Accuracy)

variable {a b : Float}

theorem signed_roundWithAccuracy (spec : Format) (s : Sign) (m : Nat) (e : Int) (acc : Accuracy) :
    Signed s (UnpackedFloat.roundWithAccuracy spec s m e acc) := by
  unfold UnpackedFloat.roundWithAccuracy
  dsimp only
  split <;> simp [Signed]

theorem normalize_ne_notANumber (spec : Format) (n e : Int) (s : Sign) :
    UnpackedFloat.normalize spec n e s ≠ .notANumber := by
  unfold UnpackedFloat.normalize
  split
  · exact (signed_roundWithAccuracy _ _ _ _ _).ne_notANumber
  · simp
  · exact (signed_roundWithAccuracy _ _ _ _ _).ne_notANumber

theorem unpack_pack_ne_notANumber {x : UnpackedFloat} (hx : x ≠ .notANumber) : (pack x).unpack ≠ .notANumber := by
  obtain ⟨s, hs⟩ := exists_signed hx
  exact (signed_unpack_pack hs).ne_notANumber

theorem nonpos_of_signed (ha : Signed .negative (unpacked a)) : a ≤ 0 := by
  have h0 : unpacked 0 = .zero .positive := rfl
  rw [le_iff, Comparable, Comparable, h0]
  revert ha
  rcases unpacked a with (_ | _) | _ | _ | ⟨_ | _, m, e, _⟩ <;> simp [Signed, rank, Prod.Lex.toLex_le_toLex]

theorem nonpos_of_zero {s : Sign} (ha : unpacked a = .zero s) : a ≤ 0 := by
  have h0 : unpacked 0 = .zero .positive := rfl
  simp [le_iff, Comparable, ha, h0, rank]

theorem unpack_pack_notANumber : (pack .notANumber).unpack = .notANumber := rfl

/-- A double differs from zero unless it is a zero of any sign. -/
theorem bne_zero_eq_false : (a != 0.0) = false ↔ ∃ s, unpacked a = .zero s := by
  have h0 : unpacked 0.0 = .zero .positive := rfl
  have hbeq : (a == 0.0) = UnpackedFloat.beq (unpacked a) (unpacked 0.0) := rfl
  rw [bne, hbeq, h0]
  rcases unpacked a with (_ | _) | _ | _ | ⟨_ | _, m, e, _⟩ <;> simp [UnpackedFloat.beq, UnpackedFloat.compare]

theorem signed_of_nonneg (ha : 0 ≤ a) (hne : (a != 0.0) = true) : Signed .positive (unpacked a) := by
  refine (nonneg_iff_signed.mp (nonneg_iff.mp ha)).resolve_right fun hzero => ?_
  rw [bne_zero_eq_false.mpr ⟨_, hzero⟩] at hne
  cases hne

/-! ### Differences -/

theorem unpacked_sub (a b : Float) :
    unpacked (a - b) = (pack (UnpackedFloat.sub Format.binary64 (unpacked a) (unpacked b))).unpack := rfl

/-- A finite double less one that is not NaN is not NaN. -/
theorem comparable_sub (ha : a.isFinite = true) (hb : Comparable b) : Comparable (a - b) := by
  have hfinite : (unpacked a).isFinite = true := ha
  rw [Comparable, unpacked_sub]
  refine unpack_pack_ne_notANumber ?_
  unfold Comparable at hb
  cases hx : unpacked a with
  | notANumber => simp [hx, UnpackedFloat.isFinite] at hfinite
  | infinity s => simp [hx, UnpackedFloat.isFinite] at hfinite
  | zero s =>
    cases hy : unpacked b with
    | notANumber => exact absurd hy hb
    | infinity t => simp [UnpackedFloat.sub]
    | zero t =>
      intro hnan
      cases s <;> cases t <;> cases hnan
    | finite t m e h => simp [UnpackedFloat.sub]
  | finite s m e h =>
    cases hy : unpacked b with
    | notANumber => exact absurd hy hb
    | infinity t => simp [UnpackedFloat.sub]
    | zero t => simp [UnpackedFloat.sub]
    | finite t m' e' h' => exact normalize_ne_notANumber _ _ _ _

/-- A double less itself is zero, or NaN if it is not finite. -/
theorem unpacked_sub_self (a : Float) : unpacked (a - a) = .zero .positive ∨ unpacked (a - a) = .notANumber := by
  rw [unpacked_sub]
  cases unpacked a with
  | notANumber => exact .inr rfl
  | infinity s => cases s <;> exact .inr rfl
  | zero s => cases s <;> exact .inl rfl
  | finite s m e h =>
    refine .inl ?_
    have hsub : UnpackedFloat.sub Format.binary64 (.finite s m e h) (.finite s m e h) = .zero .positive := by
      simp [UnpackedFloat.sub, UnpackedFloat.normalize]
    rw [hsub]
    exact unpack_pack_zero _

/-! ### Sums with zero -/

/-- Adding zero leads to nothing above the summand. -/
theorem add_zero_le (ha : 0 ≤ a) : a + 0.0 ≤ a := by
  have h0 : unpacked 0.0 = .zero .positive := rfl
  have hcomp := comparable_of_nonneg ha
  rw [nonneg_iff] at ha
  rw [le_iff, Comparable, unpacked_add, h0]
  cases hx : unpacked a with
  | notANumber => exact absurd hx hcomp
  | infinity s => simp [UnpackedFloat.add, unpack_pack_infinity, Comparable, hx]
  | zero s => cases s <;> simp [UnpackedFloat.add, unpack_pack_zero, Comparable, hx, rank]
  | finite s m e h =>
    have hpack := unpack_pack_finite (s := s) (h := h) (canonical_of_unpacked hx)
    rw [if_pos (exponent_le_of_unpacked hx)] at hpack
    simp [UnpackedFloat.add, hpack, Comparable, hx]

/-! ### Squares -/

theorem unpacked_mul (a b : Float) :
    unpacked (a * b) = (pack (UnpackedFloat.mul Format.binary64 (unpacked a) (unpacked b))).unpack := rfl

/-- The square of a double that is not NaN is not negative. -/
theorem nonneg_mul_self (ha : Comparable a) : 0 ≤ a * a := by
  rw [nonneg_iff, unpacked_mul]
  refine nonneg_unpack_pack ?_
  cases hx : unpacked a with
  | notANumber => exact absurd hx ha
  | infinity s => cases s <;> rfl
  | zero s => trivial
  | finite s m e h => cases s <;> exact nonneg_roundWithAccuracy _ _ _ _

/-! ### Roots -/

theorem unpacked_sqrt (a : Float) : unpacked a.sqrt = (pack (UnpackedFloat.sqrt Format.binary64 (unpacked a))).unpack := rfl

theorem signed_sqrt (ha : Signed .positive (unpacked a)) : Signed .positive (unpacked a.sqrt) := by
  rw [unpacked_sqrt]
  refine signed_unpack_pack ?_
  rcases ha.cases with hx | hx | ⟨m, e, h, hx⟩ <;> rw [hx]
  · rfl
  · rfl
  · exact signed_roundWithAccuracy _ _ _ _ _

theorem unpacked_sqrt_zero {s : Sign} (ha : unpacked a = .zero s) : unpacked a.sqrt = .zero s := by
  rw [unpacked_sqrt, ha]
  exact unpack_pack_zero s

/-! ### Quotients -/

theorem unpacked_div (a b : Float) :
    unpacked (a / b) = (pack (UnpackedFloat.div Format.binary64 (unpacked a) (unpacked b))).unpack := rfl

theorem unpacked_neg_one : ∃ m e h, unpacked (-1.0) = .finite .negative m e h := ⟨_, _, _, rfl⟩

/-- Minus one over a double with a positive sign has a negative sign; over zero it is an infinity. -/
theorem signed_neg_one_div (ha : Signed .positive (unpacked a)) : Signed .negative (unpacked (-1.0 / a)) := by
  obtain ⟨m, e, h, hone⟩ := unpacked_neg_one
  rw [unpacked_div, hone]
  refine signed_unpack_pack ?_
  rcases ha.cases with hx | hx | ⟨m, e, h, hx⟩ <;> rw [hx]
  · rfl
  · rfl
  · exact signed_roundWithAccuracy _ _ _ _ _

end Intendant.Double

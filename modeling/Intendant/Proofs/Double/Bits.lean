import Intendant.Decimal.Shortest
import Intendant.Proofs.Double.Packing

/-! # The bits of a double

The sign, the exponent and the fraction of a double are parts of its bits, and what it unpacks to is put
together from them (`unpacked_eq`). A finite double is determined by what it unpacks to. -/

namespace Intendant.Double
open Float.Model
open Float.Model.UnpackedFloat (Sign)
open Decimal (fractionBits exponentBits isNegative)

/-- The sign of a double by its bit, also of zero and NaN. -/
def signOf (x : Float) : Sign := if isNegative x then .negative else .positive

variable {x y : Float}

theorem fractionBits_lt (x : Float) : fractionBits x < 2 ^ 52 := Nat.mod_lt _ (by decide)

theorem exponentBits_lt (x : Float) : exponentBits x < 2 ^ 11 := Nat.mod_lt _ (by decide)

theorem toNat_packComponents (s : Sign) (E : BitVec 11) (M : BitVec 52) :
    (UnpackedFloat.packComponents Format.binary64 s E M).toNat =
      s.toBitVec.toNat * 2 ^ 63 + E.toNat * 2 ^ 52 + M.toNat := by
  have hE : E.toNat < 2 ^ 11 := E.isLt
  have hM : M.toNat < 2 ^ 52 := M.isLt
  show (s.toBitVec ++ E ++ M).toNat = _
  rw [BitVec.toNat_append, BitVec.toNat_append, ← Nat.shiftLeft_add_eq_or_of_lt hM, ← Nat.shiftLeft_add_eq_or_of_lt hE,
    Nat.shiftLeft_eq, Nat.shiftLeft_eq]
  ring

theorem toBitVec_eq (x : Float) :
    x.toModel.toBits.toBitVec =
      UnpackedFloat.packComponents Format.binary64 (signOf x) (.ofNat 11 (exponentBits x)) (.ofNat 52 (fractionBits x)) := by
  have hsign : (signOf x).toBitVec.toNat = x.toBits.toNat / 2 ^ 63 % 2 := by
    have hneg : isNegative x = decide (x.toBits.toNat / 2 ^ 63 % 2 = 1) := rfl
    rw [signOf, hneg]
    rcases Nat.mod_two_eq_zero_or_one (x.toBits.toNat / 2 ^ 63) with h | h <;> rw [h] <;> rfl
  apply BitVec.eq_of_toNat_eq
  rw [toNat_packComponents, hsign, BitVec.toNat_ofNat, BitVec.toNat_ofNat, Nat.mod_eq_of_lt (exponentBits_lt x),
    Nat.mod_eq_of_lt (fractionBits_lt x)]
  have hx := x.toBits.toNat_lt
  show x.toBits.toNat = x.toBits.toNat / 2 ^ 63 % 2 * 2 ^ 63 + x.toBits.toNat / 2 ^ 52 % 2 ^ 11 * 2 ^ 52 +
    x.toBits.toNat % 2 ^ 52
  omega

/-- What a double unpacks to, from its bits. -/
theorem unpacked_eq (x : Float) :
    unpacked x =
      if exponentBits x = 2047 then if fractionBits x = 0 then .infinity (signOf x) else .notANumber
      else if exponentBits x = 0 then
        if h : 0 < fractionBits x then .finite (signOf x) (fractionBits x) (-1074) h else .zero (signOf x)
      else .finite (signOf x) (2 ^ 52 + fractionBits x) (exponentBits x - 1075) (by positivity) := by
  have hM := fractionBits_lt x
  unfold unpacked Float.Model.unpack
  rw [toBitVec_eq, unpack_packComponents_ofNat (signOf x) (exponentBits_lt x)]
  generalize fractionBits x = M at hM ⊢
  have hfrac : (BitVec.ofNat 52 M).toNat = M := by rw [BitVec.toNat_ofNat, Nat.mod_eq_of_lt hM]
  have hempty : BitVec.ofNat 52 M = 0#52 ↔ M = 0 := by
    rw [← BitVec.toNat_inj, hfrac]
    rfl
  simp only [hempty, hfrac]
  by_cases hzero : M = 0
  · simp [hzero]
  · simp only [hzero, dif_neg, not_false_eq_true, dif_pos (Nat.pos_of_ne_zero hzero)]

theorem eq_of_fields (hsign : signOf x = signOf y) (hexp : exponentBits x = exponentBits y)
    (hfrac : fractionBits x = fractionBits y) : x = y := by
  have hbits : x.toModel.toBits.toBitVec = y.toModel.toBits.toBitVec := by
    rw [toBitVec_eq, toBitVec_eq, hsign, hexp, hfrac]
  obtain ⟨⟨⟨bits⟩, _⟩⟩ := x
  obtain ⟨⟨⟨bits'⟩, _⟩⟩ := y
  obtain rfl : bits = bits' := hbits
  rfl

/-- The sign, the exponent and the fraction that an unpacked finite double comes from. -/
def fields : UnpackedFloat → Sign × Nat × Nat
  | .finite s m e _ => if m < 2 ^ 52 then (s, 0, m) else (s, (e + 1075).toNat, m - 2 ^ 52)
  | .zero s => (s, 0, 0)
  | .infinity s => (s, 2047, 0)
  | .notANumber => (.positive, 2047, 1)

theorem fields_unpacked (hx : x.isFinite = true) : fields (unpacked x) = (signOf x, exponentBits x, fractionBits x) := by
  have hfinite : (unpacked x).isFinite = true := hx
  have hM := fractionBits_lt x
  rw [unpacked_eq] at hfinite ⊢
  split_ifs at hfinite ⊢ with h1 h2 h3 h4
  · cases hfinite
  · cases hfinite
  · rw [fields, if_pos hM, h3]
  · obtain hzero : fractionBits x = 0 := by omega
    simp [fields, h3, hzero]
  · simp [fields]

theorem exponent_le_of_unpacked {s : Sign} {m : Nat} {e : Int} {h : 0 < m} (hx : unpacked x = .finite s m e h) :
    e ≤ 971 := by
  have hE := exponentBits_lt x
  rw [unpacked_eq] at hx
  split_ifs at hx with h1 h2 h3 h4
  · injection hx with _ _ he
    omega
  · injection hx with _ _ he
    omega

/-- A finite double is determined by what it unpacks to. -/
theorem eq_of_unpacked (hx : x.isFinite = true) (h : unpacked x = unpacked y) : x = y := by
  have hy : y.isFinite = true := by
    have hfinite : (unpacked x).isFinite = true := hx
    rwa [h] at hfinite
  have hfields := fields_unpacked hx
  rw [h, fields_unpacked hy] at hfields
  simp only [Prod.mk.injEq] at hfields
  exact eq_of_fields hfields.1.symm hfields.2.1.symm hfields.2.2.symm

/-! ### Negation -/

theorem unpacked_neg (hx : x.isFinite = true) : unpacked (-x) = (unpacked x).neg := by
  have hfinite : (unpacked x).isFinite = true := hx
  show (pack (unpacked x).neg).unpack = _
  cases h : unpacked x with
  | infinity s =>
    rw [h] at hfinite
    cases hfinite
  | notANumber =>
    rw [h] at hfinite
    cases hfinite
  | zero s => exact unpack_pack_zero _
  | finite s m e hm => exact (unpack_pack_finite (canonical_of_unpacked h)).trans (if_pos (exponent_le_of_unpacked h))

theorem isFinite_neg (hx : x.isFinite = true) : (-x).isFinite = true := by
  have hfinite : (unpacked x).isFinite = true := hx
  show (unpacked (-x)).isFinite = true
  rw [unpacked_neg hx]
  cases h : unpacked x <;> rw [h] at hfinite
  · cases hfinite
  · cases hfinite
  · rfl
  · rfl

theorem isFinite_eq_false : x.isFinite = false ↔ x.isNaN = true ∨ x.isInf = true := by
  show (unpacked x).isFinite = false ↔ (unpacked x).isNaN = true ∨ (unpacked x).isInf = true
  cases unpacked x <;> simp [UnpackedFloat.isFinite, UnpackedFloat.isNaN, UnpackedFloat.isInf]

theorem not_isInf (hx : x.isFinite = true) : x.isInf = false :=
  Bool.eq_false_of_not_eq_true fun hinf => Bool.false_ne_true ((isFinite_eq_false.mpr (.inr hinf)).symm.trans hx)

theorem not_isNaN (hx : x.isFinite = true) : x.isNaN = false :=
  Bool.eq_false_of_not_eq_true fun hnan => Bool.false_ne_true ((isFinite_eq_false.mpr (.inl hnan)).symm.trans hx)

theorem isFinite_of_nonneg (hx : 0 ≤ x) (hinf : x.isInf = false) : x.isFinite = true := by
  have hcomp := comparable_of_nonneg hx
  have hinf' : (unpacked x).isInf = false := hinf
  show (unpacked x).isFinite = true
  unfold Comparable at hcomp
  cases h : unpacked x <;> rw [h] at hcomp hinf'
  · cases hinf'
  · exact absurd rfl hcomp
  · rfl
  · rfl

end Intendant.Double

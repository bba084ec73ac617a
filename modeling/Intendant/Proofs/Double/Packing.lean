import Intendant.Proofs.Double.Order
import Mathlib

/-! # Packing doubles

Packing a mantissa with an exponent into the bits of a double loses nothing where both fit
(`unpack_pack_finite`), and a mantissa whose exponent is too large becomes an infinity of the same sign.
`Nonneg` singles out the unpacked doubles that are neither negative nor NaN, and packing keeps them so.

The library is imported as a whole, since no part of it brings the lemmas about the fields of packed bits. -/

namespace Intendant.Double
open Float.Model
open Float.Model.UnpackedFloat (Sign)

/-- A mantissa and an exponent as they come out of the bits of a double. -/
structure Canonical (m : Nat) (e : Int) : Prop where
  mantissa_lt : m < 2 ^ 53
  exponent_ge : -1074 ≤ e
  full : 2 ^ 52 ≤ m ∨ e = -1074

@[simp] theorem exponentBias_eq : Format.binary64.exponentBias = 1023 := rfl
@[simp] theorem mantissaBits_eq : Format.binary64.mantissaBits = 53 := rfl
@[simp] theorem minExponent_eq : Format.binary64.minExponent = -1074 := rfl

/-- A normal double has an implicit leading bit. -/
theorem toNat_implicit (v : BitVec 52) : (1#1 ++ v).toNat = 2 ^ 52 + v.toNat := by
  rw [BitVec.toNat_append, ← Nat.shiftLeft_add_eq_or_of_lt v.isLt]
  rfl

theorem canonical_of_unpacked {a : Float} {s : Sign} {m : Nat} {e : Int} {h : 0 < m}
    (ha : unpacked a = .finite s m e h) : Canonical m e := by
  unfold unpacked Float.Model.unpack at ha
  revert ha
  fun_cases UnpackedFloat.unpack with
  | case1 | case2 | case3 => simp
  | case4 mantissa exponent e' _ _ _ hzero =>
    intro ha
    injection ha with _ hm he
    have hlt : mantissa.toNat < 2 ^ 52 := mantissa.isLt
    have he' : e' = -1075 := by simp [e', hzero]
    exact ⟨by omega, by omega, .inr (by omega)⟩
  | case5 mantissa exponent e' _ _ _ hpos =>
    intro ha
    injection ha with _ hm he
    rw [toNat_implicit] at hm
    have hlt : mantissa.toNat < 2 ^ 52 := mantissa.isLt
    have hpos : 0 < exponent.toNat := by simpa [BitVec.toNat_pos, BitVec.pos_iff_ne_zero] using hpos
    have he' : e' = exponent.toNat - 1075 := by simp [e']
    exact ⟨by omega, by omega, .inl (by omega)⟩

theorem unpack_packComponents (s : Sign) (E : BitVec 11) (M : BitVec 52) :
    UnpackedFloat.unpack Format.binary64 (UnpackedFloat.packComponents Format.binary64 s E M) =
      if E = -1#11 then if M = 0#52 then .infinity s else .notANumber
      else if E = 0#11 then
        if h : M = 0#52 then .zero s
        else .finite s M.toNat (-1074) (by simpa [BitVec.toNat_pos, BitVec.pos_iff_ne_zero] using h)
      else .finite s (2 ^ 52 + M.toNat) (E.toNat - 1075) (by positivity) := by
  unfold UnpackedFloat.unpack
  simp only [UnpackedFloat.unpackExponent_packComponents, UnpackedFloat.unpackMantissa_packComponents,
    UnpackedFloat.unpackSign_packComponents, UnpackedFloat.Sign.ofBitVec_toBitVec, toNat_implicit]
  by_cases hE : E = 0#11
  · simp [hE]
  · simp [hE]

/-- The same with an exponent that fits its field. -/
theorem unpack_packComponents_ofNat (s : Sign) {E : Nat} (hE : E < 2 ^ 11) (M : BitVec 52) :
    UnpackedFloat.unpack Format.binary64 (UnpackedFloat.packComponents Format.binary64 s (.ofNat 11 E) M) =
      if E = 2047 then if M = 0#52 then .infinity s else .notANumber
      else if E = 0 then
        if h : M = 0#52 then .zero s
        else .finite s M.toNat (-1074) (by simpa [BitVec.toNat_pos, BitVec.pos_iff_ne_zero] using h)
      else .finite s (2 ^ 52 + M.toNat) (E - 1075) (by positivity) := by
  have hexp : (BitVec.ofNat 11 E).toNat = E := by rw [BitVec.toNat_ofNat, Nat.mod_eq_of_lt hE]
  have hfull : BitVec.ofNat 11 E = -1#11 ↔ E = 2047 := by
    rw [← BitVec.toNat_inj, hexp]
    rfl
  have hzero : BitVec.ofNat 11 E = 0#11 ↔ E = 0 := by
    rw [← BitVec.toNat_inj, hexp]
    rfl
  simp only [unpack_packComponents, hfull, hzero, hexp]

theorem unpack_pack_infinity (s : Sign) : (pack (.infinity s)).unpack = .infinity s := by
  simp [Float.Model.unpack, Float.Model.pack, UnpackedFloat.pack, UnpackedFloat.packedInfinity, unpack_packComponents]

theorem unpack_pack_zero (s : Sign) : (pack (.zero s)).unpack = .zero s := by
  simp [Float.Model.unpack, Float.Model.pack, UnpackedFloat.pack]

theorem unpack_pack_finite {s : Sign} {m : Nat} {e : Int} {h : 0 < m} (hc : Canonical m e) :
    (pack (.finite s m e h)).unpack = if e ≤ 971 then .finite s m e h else .infinity s := by
  obtain ⟨hlt, hge, hfull⟩ := hc
  have hb : (e + (Format.binary64.exponentBias : Nat) + (52 : Nat)).toNat = (e + 1075).toNat := by simp [add_assoc]
  unfold Float.Model.unpack Float.Model.pack UnpackedFloat.pack
  simp only [mantissaBits_eq, hb]
  by_cases he : e ≤ 971
  · rw [if_pos he, if_neg (by omega)]
    -- A full mantissa is stored without its leading bit, a shorter one in whole with exponent zero.
    by_cases hm : 2 ^ 52 ≤ m
    · have hlog : m.log2 + 1 = 53 := by
        have h1 := (Nat.le_log2 h.ne').mpr hm
        have h2 := (Nat.log2_lt h.ne').mpr hlt
        omega
      have hmant : 2 ^ 52 + (BitVec.ofNat 52 m).toNat = m := by
        rw [BitVec.toNat_ofNat]
        omega
      rw [if_pos hlog, unpack_packComponents_ofNat s (by omega), if_neg (by omega), if_neg (by omega)]
      simp only [hmant]
      congr 1
      omega
    · have hlog : m.log2 + 1 ≠ 53 := by
        have := (Nat.log2_lt h.ne').mpr (Nat.lt_of_not_le hm)
        omega
      have hmant : (BitVec.ofNat 52 m).toNat = m := by
        rw [BitVec.toNat_ofNat]
        omega
      have hne : BitVec.ofNat 52 m ≠ 0#52 := by
        rw [← BitVec.toNat_inj.ne, hmant]
        exact h.ne'
      rw [if_neg hlog, unpack_packComponents_ofNat s (by decide), if_neg (by decide), if_pos rfl, dif_neg hne]
      simp only [hmant]
      congr 1
      omega
  · rw [if_neg he, if_pos (by omega)]
    simp [UnpackedFloat.packedInfinity, unpack_packComponents]

/-! ### Signs -/

/-- An unpacked double with a sign. -/
def Signed (s : Sign) : UnpackedFloat → Prop
  | .infinity t => t = s
  | .zero t => t = s
  | .finite t _ _ _ => t = s
  | .notANumber => False

theorem Signed.cases {s : Sign} {x : UnpackedFloat} (h : Signed s x) :
    x = .infinity s ∨ x = .zero s ∨ ∃ m e hm, x = .finite s m e hm := by
  cases x with
  | notANumber => exact h.elim
  | infinity t =>
    obtain rfl : t = s := h
    exact .inl rfl
  | zero t =>
    obtain rfl : t = s := h
    exact .inr (.inl rfl)
  | finite t m e hm =>
    obtain rfl : t = s := h
    exact .inr (.inr ⟨m, e, hm, rfl⟩)

theorem Signed.ne_notANumber {s : Sign} {x : UnpackedFloat} (h : Signed s x) : x ≠ .notANumber := by
  rintro rfl
  exact h

theorem exists_signed {x : UnpackedFloat} (h : x ≠ .notANumber) : ∃ s, Signed s x := by
  cases x with
  | notANumber => exact absurd rfl h
  | infinity s => exact ⟨s, rfl⟩
  | zero s => exact ⟨s, rfl⟩
  | finite s m e hm => exact ⟨s, rfl⟩

/-- Packing may overflow or lose bits, but it keeps the sign and makes no NaN. -/
theorem signed_unpack_pack {s : Sign} {x : UnpackedFloat} (hx : Signed s x) : Signed s (pack x).unpack := by
  rcases hx.cases with rfl | rfl | ⟨m, e, h, rfl⟩
  · rw [unpack_pack_infinity]
    exact hx
  · rw [unpack_pack_zero]
    exact hx
  · unfold Float.Model.unpack Float.Model.pack UnpackedFloat.pack
    dsimp only
    split
    · simp [UnpackedFloat.packedInfinity, unpack_packComponents, Signed]
    · split
      · rename_i hfits _
        rw [unpack_packComponents_ofNat s (by omega), if_neg (by omega)]
        split
        · split <;> simp [Signed]
        · simp [Signed]
      · rw [unpack_packComponents, if_neg (by decide), if_pos rfl]
        split <;> simp [Signed]

/-- An unpacked double that is neither negative nor NaN. -/
def Nonneg : UnpackedFloat → Prop
  | .infinity s => s = .positive
  | .zero _ => True
  | .finite s _ _ _ => s = .positive
  | .notANumber => False

theorem nonneg_iff_signed {x : UnpackedFloat} : Nonneg x ↔ Signed .positive x ∨ x = .zero .negative := by
  rcases x with s | _ | (_ | _) | _ <;> simp [Nonneg, Signed]

theorem Nonneg.cases {x : UnpackedFloat} (h : Nonneg x) :
    x = .infinity .positive ∨ (∃ s, x = .zero s) ∨ ∃ m e hm, x = .finite .positive m e hm := by
  rcases nonneg_iff_signed.mp h with hsigned | rfl
  · exact hsigned.cases.imp_right (Or.imp_left fun hzero => ⟨_, hzero⟩)
  · exact .inr (.inl ⟨_, rfl⟩)

theorem nonneg_iff {a : Float} : 0 ≤ a ↔ Nonneg (unpacked a) := by
  have h0 : unpacked 0 = .zero .positive := rfl
  rw [le_iff, Comparable, Comparable, h0]
  rcases unpacked a with (_ | _) | _ | _ | ⟨_ | _, m, e, _⟩ <;>
    simp [Nonneg, rank, Prod.Lex.toLex_le_toLex]

theorem nonneg_unpack_pack {x : UnpackedFloat} (hx : Nonneg x) : Nonneg (pack x).unpack := by
  rcases nonneg_iff_signed.mp hx with h | rfl
  · exact nonneg_iff_signed.mpr (.inl (signed_unpack_pack h))
  · rw [unpack_pack_zero]
    trivial

theorem le_pack_finite {x : UnpackedFloat} {m : Nat} {e : Int} {h : 0 < m} (hc : Canonical m e)
    (hle : rank x ≤ rank (.finite .positive m e h)) :
    (pack (.finite .positive m e h)).unpack ≠ .notANumber ∧ rank x ≤ rank (pack (.finite .positive m e h)).unpack := by
  rw [unpack_pack_finite hc]
  split
  · exact ⟨by simp, hle⟩
  · refine ⟨by simp, hle.trans ?_⟩
    simp [rank, Prod.Lex.toLex_le_toLex]

end Intendant.Double

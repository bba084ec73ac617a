import Intendant.Proofs.Double.Bits
import Intendant.Proofs.Double.Scientific

/-! # The decimal that is written

Whatever `shortest` picks is nearest to the double that it was picked for (`shortest_near`): a hit on a grid
passed the test `readsBack`, whose fractions are the ends of the interval of the double, and otherwise the
exact value is taken. -/

namespace Intendant.Decimal
open Float.Model
open Float.Model.UnpackedFloat (Sign)
open Double (Canonical Near RoundsTo unpacked)

variable {M : Nat} {E : Int}

/-- The dyadic of a double that unpacks to a mantissa and an exponent. -/
theorem ofFloat_eq {x : Float} {s : Sign} {h : 0 < M} (hx : unpacked x = .finite s M E h) :
    ∃ narrow, Dyadic.ofFloat x = ⟨M, E, narrow⟩ ∧ (narrow = true ↔ M = 2 ^ 52 ∧ -1074 < E) := by
  have hM := Double.fractionBits_lt x
  rw [Double.unpacked_eq] at hx
  split_ifs at hx with h1 h2 h3 h4
  · injection hx with _ hm he
    refine ⟨false, ?_, ?_⟩
    · rw [Dyadic.ofFloat, if_pos h3, hm, he]
    · simp only [Bool.false_eq_true, false_iff]
      omega
  · injection hx with _ hm he
    refine ⟨decide (fractionBits x = 0) && decide (1 < exponentBits x), ?_, ?_⟩
    · rw [Dyadic.ofFloat, if_neg h3, ← hm, ← he, Nat.add_comm]
      rfl
    · simp only [Bool.and_eq_true, decide_eq_true_eq]
      omega

/-! ### The ends of the interval -/

theorem ratio_pos (m : Nat) (q p : Int) : (0 : ℚ) < (ratio m q p).2 := by
  show (0 : ℚ) < (2 ^ (-q).toNat * 10 ^ p.toNat : Nat)
  positivity

theorem ratio_eq (m : Nat) (q p : Int) : ((ratio m q p).1 : ℚ) * 10 ^ p = m * 2 ^ q * (ratio m q p).2 := by
  have h2 := Double.zpow_mul_pow_toNat (two_ne_zero : (2 : ℚ) ≠ 0) q
  have h10 := Double.zpow_mul_pow_toNat (by norm_num : (10 : ℚ) ≠ 0) p
  show ((m * 2 ^ q.toNat * 10 ^ (-p).toNat : Nat) : ℚ) * 10 ^ p = m * 2 ^ q * (2 ^ (-q).toNat * 10 ^ p.toNat : Nat)
  push_cast
  rw [← h2, ← h10]
  ring

theorem ratio_le_iff {m c : Nat} {q p : Int} :
    (ratio m q p).1 ≤ c * (ratio m q p).2 ↔ (m : ℚ) * 2 ^ q ≤ c * 10 ^ p := by
  rw [← mul_le_mul_iff_left₀ (ratio_pos m q p), ← ratio_eq, mul_right_comm, mul_le_mul_iff_left₀ (by positivity)]
  exact_mod_cast Iff.rfl

theorem le_ratio_iff {m c : Nat} {q p : Int} :
    c * (ratio m q p).2 ≤ (ratio m q p).1 ↔ (c : ℚ) * 10 ^ p ≤ m * 2 ^ q := by
  rw [← mul_le_mul_iff_left₀ (ratio_pos m q p), ← ratio_eq, mul_right_comm, mul_le_mul_iff_left₀ (by positivity)]
  exact_mod_cast Iff.rfl

/-- What `readsBack` tests: the interval reaches half a unit up, and as much down unless it is narrow there. -/
theorem bounds_of_readsBack {narrow : Bool} (hM : 0 < M) {c : Nat} {p : Int}
    (h : Dyadic.readsBack ⟨M, E, narrow⟩ c p = true) :
    if M % 2 = 0 then
      (M - (if narrow then 1 / 4 else 1 / 2) : ℚ) ≤ c * 10 ^ p / 2 ^ E ∧ (c * 10 ^ p / 2 ^ E : ℚ) ≤ M + 1 / 2
    else (M - (if narrow then 1 / 4 else 1 / 2) : ℚ) < c * 10 ^ p / 2 ^ E ∧ (c * 10 ^ p / 2 ^ E : ℚ) < M + 1 / 2 := by
  have hpos : (0 : ℚ) < 2 ^ E := by positivity
  -- The test counts in quarters of a unit, so all is brought to them.
  have hquarter : (2 : ℚ) ^ E = 4 * 2 ^ (E - 2) := by
    rw [zpow_sub₀ two_ne_zero]
    ring
  have hlow : ((4 * M - (if narrow then 1 else 2) : Nat) : ℚ) * 2 ^ (E - 2) =
      (M - (if narrow then 1 / 4 else 1 / 2)) * 2 ^ E := by
    rw [Nat.cast_sub (by split <;> omega), hquarter]
    split <;> push_cast <;> ring
  have hhigh : ((4 * M + 2 : Nat) : ℚ) * 2 ^ (E - 2) = (M + 1 / 2) * 2 ^ E := by
    rw [hquarter]
    push_cast
    ring
  simp only [Dyadic.readsBack] at h
  split at h
  · rename_i heven
    rw [Bool.and_eq_true, decide_eq_true_eq, decide_eq_true_eq, ratio_le_iff, le_ratio_iff, hlow, hhigh] at h
    rw [if_pos heven, le_div_iff₀ hpos, div_le_iff₀ hpos]
    exact h
  · rename_i hodd
    rw [Bool.and_eq_true, decide_eq_true_eq, decide_eq_true_eq, ← not_le, ← not_le, le_ratio_iff, ratio_le_iff, not_le,
      not_le, hlow, hhigh] at h
    rw [if_neg hodd, lt_div_iff₀ hpos, div_lt_iff₀ hpos]
    exact h

/-- Where the doubles on both sides are equally far. -/
theorem near_of_readsBack_wide (hM : 0 < M) (hc : Canonical M E) (hwide : ¬(M = 2 ^ 52 ∧ -1074 < E)) {c : Nat} {p : Int}
    (h : Dyadic.readsBack ⟨M, E, false⟩ c p = true) : Near (c * 10 ^ p) M E := by
  have hrounds : RoundsTo (c * 10 ^ p / 2 ^ E) M := by simpa [RoundsTo] using bounds_of_readsBack hM h
  refine Or.inl ⟨hrounds, ?_⟩
  by_cases he : E = -1074
  · exact Or.inr he
  · left
    have hM : 2 ^ 52 < M := by
      have := hc.exponent_ge
      have := hc.full
      omega
    have hlo := hrounds.bounds.1
    rw [le_div_iff₀ (by positivity)] at hlo
    have : (2 ^ 52 : ℚ) + 1 ≤ M := by exact_mod_cast hM
    rw [zpow_add₀ two_ne_zero]
    exact (mul_le_mul_of_nonneg_right (by linarith) (by positivity)).trans hlo

/-- Where the double below is half as far as the one above, a decimal below the double is measured by the finer unit. -/
theorem near_of_readsBack_narrow (he : -1074 < E) {c : Nat} {p : Int}
    (h : Dyadic.readsBack ⟨2 ^ 52, E, true⟩ c p = true) : Near (c * 10 ^ p) (2 ^ 52) E := by
  have hpow : (2 : ℚ) ^ (52 + E) = 2 ^ 52 * 2 ^ E := zpow_add₀ two_ne_zero _ _
  obtain ⟨hlo, hhi⟩ : (2 ^ 52 - 1 / 4 : ℚ) ≤ c * 10 ^ p / 2 ^ E ∧ (c * 10 ^ p / 2 ^ E : ℚ) ≤ 2 ^ 52 + 1 / 2 := by
    exact_mod_cast bounds_of_readsBack (by decide) h
  by_cases hge : (2 : ℚ) ^ (52 + E) ≤ c * 10 ^ p
  · refine Or.inl ⟨?_, Or.inl hge⟩
    rw [RoundsTo, if_pos (by decide)]
    push_cast
    exact ⟨by linarith, hhi⟩
  · refine Or.inr ⟨rfl, he, lt_of_not_ge hge, ?_⟩
    have hdouble : (c * 10 ^ p / 2 ^ (E - 1) : ℚ) = 2 * (c * 10 ^ p / 2 ^ E) := by
      rw [zpow_sub_one₀ two_ne_zero]
      field_simp
    have hbelow : (c * 10 ^ p / 2 ^ E : ℚ) < 2 ^ 52 := by
      rw [div_lt_iff₀ (by positivity), ← hpow]
      exact lt_of_not_ge hge
    rw [RoundsTo, if_pos (by decide), hdouble]
    push_cast
    exact ⟨by linarith, by linarith⟩

/-- A decimal that reads back is nearest to the double. -/
theorem near_of_readsBack {narrow : Bool} (hM : 0 < M) (hc : Canonical M E)
    (hnarrow : narrow = true ↔ M = 2 ^ 52 ∧ -1074 < E) {c : Nat} {p : Int}
    (h : Dyadic.readsBack ⟨M, E, narrow⟩ c p = true) : Near (c * 10 ^ p) M E := by
  cases narrow with
  | false => exact near_of_readsBack_wide hM hc (fun hM' => Bool.false_ne_true (hnarrow.mpr hM')) h
  | true =>
    obtain ⟨rfl, he⟩ := hnarrow.mp rfl
    exact near_of_readsBack_narrow he h

/-! ### The choice -/

theorem readsBack_of_onGrid? {d : Dyadic} {tie : Tie} {p : Int} {c : Nat} (h : d.onGrid? tie p = some c) :
    d.readsBack c p = true := by
  simp only [Dyadic.onGrid?] at h
  split at h
  · cases h
  · rename_i hlow _
    injection h with h
    exact h ▸ hlow
  · rename_i _ hhigh
    injection h with h
    exact h ▸ hhigh
  · rename_i hlow hhigh
    cases tie <;> dsimp only at h <;> split_ifs at h <;> injection h with h <;> subst h <;> assumption

theorem strip_value : ∀ fuel c p, ((strip fuel c p).coefficient : ℚ) * 10 ^ (strip fuel c p).exponent = c * 10 ^ p
  | 0, _, _ => rfl
  | fuel + 1, c, p => by
    rw [strip]
    split
    · rename_i h
      have hten : ((c / 10 : Nat) : ℚ) * 10 = c := by exact_mod_cast Nat.div_mul_cancel (Nat.dvd_of_mod_eq_zero h.2)
      rw [strip_value, zpow_add_one₀ (by norm_num), ← hten]
      ring
    · rfl

theorem exact_value (d : Dyadic) : (d.exact.coefficient : ℚ) * 10 ^ d.exact.exponent = d.mantissa * 2 ^ d.exponent := by
  have h2 := Double.zpow_mul_pow_toNat (two_ne_zero : (2 : ℚ) ≠ 0) d.exponent
  show ((d.mantissa * 2 ^ d.exponent.toNat * 5 ^ (-d.exponent).toNat : Nat) : ℚ) *
    10 ^ (if d.exponent < 0 then d.exponent else 0) = d.mantissa * 2 ^ d.exponent
  push_cast
  rw [← h2]
  split
  · have h10 := Double.zpow_mul_pow_toNat (by norm_num : (10 : ℚ) ≠ 0) d.exponent
    rw [show d.exponent.toNat = 0 by omega, pow_zero] at h10
    have hsplit : (2 : ℚ) ^ (-d.exponent).toNat * 5 ^ (-d.exponent).toNat = 10 ^ (-d.exponent).toNat := by
      rw [← mul_pow]
      norm_num
    calc (d.mantissa * (2 ^ d.exponent * 2 ^ (-d.exponent).toNat) * 5 ^ (-d.exponent).toNat * 10 ^ d.exponent : ℚ)
        = d.mantissa * 2 ^ d.exponent * (10 ^ d.exponent * 10 ^ (-d.exponent).toNat) := by
          rw [← hsplit]
          ring
      _ = d.mantissa * 2 ^ d.exponent := by rw [h10, mul_one]
  · rw [show (-d.exponent).toNat = 0 by omega]
    simp

/-- The decimal that is written for a double is nearest to it. -/
theorem shortest_near {x : Float} {s : Sign} (hM : 0 < M) (hx : unpacked x = .finite s M E hM) (tie : Tie) :
    Near ((shortest tie x).coefficient * 10 ^ (shortest tie x).exponent) M E := by
  have hc := Double.canonical_of_unpacked hx
  obtain ⟨narrow, hd, hnarrow⟩ := ofFloat_eq hx
  simp only [shortest, hd]
  rw [if_neg hM.ne']
  split
  · rename_i c p hhit
    obtain ⟨n, -, hn⟩ := List.exists_of_findSome?_eq_some hhit
    obtain ⟨c', hgrid, heq⟩ := Option.map_eq_some_iff.mp hn
    injection heq with h1 h2
    subst h1 h2
    rw [strip_value]
    exact near_of_readsBack hM hc hnarrow (readsBack_of_onGrid? hgrid)
  · rw [exact_value]
    exact Double.near_self hc.full

theorem shortest_zero {x : Float} {s : Sign} (hx : unpacked x = .zero s) (tie : Tie) : shortest tie x = ⟨0, 0⟩ := by
  have hfinite : x.isFinite = true := by
    show (unpacked x).isFinite = true
    rw [hx]
    rfl
  have hfields := Double.fields_unpacked hfinite
  rw [hx, Double.fields, Prod.mk.injEq, Prod.mk.injEq] at hfields
  obtain ⟨-, hexp, hfrac⟩ := hfields
  have hmantissa : (Dyadic.ofFloat x).mantissa = 0 := by
    rw [Dyadic.ofFloat, if_pos hexp.symm, ← hfrac]
  rw [shortest, if_pos hmantissa]

end Intendant.Decimal

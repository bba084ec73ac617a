import Intendant.Proofs.Double.Packing

/-! # The value of a double

What is not NaN stands for an extended real number, and the order of doubles is the order of these numbers
(`le_iff_value`). A finite double stands for a real number. -/

namespace Intendant.Double
open Float.Model
open Float.Model.UnpackedFloat (Sign)

/-- The real number of a mantissa and an exponent to base two. -/
noncomputable def magnitude (m : Nat) (e : Int) : ℝ := m * 2 ^ e

/-- The number that an unpacked double stands for; zero for NaN, which stands for none. -/
noncomputable def valueOf : UnpackedFloat → EReal
  | .infinity .negative => ⊥
  | .infinity .positive => ⊤
  | .zero _ => 0
  | .finite .negative m e _ => -(magnitude m e : EReal)
  | .finite .positive m e _ => magnitude m e
  | .notANumber => 0

/-- The number a double stands for; zero for NaN. -/
noncomputable def value (a : Float) : EReal := valueOf (unpacked a)

variable {a b : Float} {m₁ m₂ : Nat} {e₁ e₂ : Int}

theorem pos_magnitude {m : Nat} (hm : 0 < m) (e : Int) : 0 < magnitude m e := by
  unfold magnitude
  positivity

/-- Mantissas with exponents are ordered as the ranks are. -/
theorem magnitude_lt (h₁ : Canonical m₁ e₁) (h₂ : Canonical m₂ e₂) (h : e₁ < e₂ ∨ e₁ = e₂ ∧ m₁ < m₂) :
    magnitude m₁ e₁ < magnitude m₂ e₂ := by
  unfold magnitude
  rcases h with hlt | ⟨rfl, hlt⟩
  · have hfull : 2 ^ 52 ≤ m₂ := h₂.full.resolve_right fun h => by
      have := h₁.exponent_ge
      omega
    have hm₁ : (m₁ : ℝ) < 2 ^ 53 := by exact_mod_cast h₁.mantissa_lt
    have hm₂ : (2 ^ 52 : ℝ) ≤ m₂ := by exact_mod_cast hfull
    have hexp : (2 : ℝ) ^ (e₁ + 1) ≤ 2 ^ e₂ := zpow_le_zpow_right₀ one_le_two hlt
    calc (m₁ * 2 ^ e₁ : ℝ) < 2 ^ 53 * 2 ^ e₁ := by gcongr
      _ = 2 ^ 52 * 2 ^ (e₁ + 1) := by
        rw [zpow_add_one₀ two_ne_zero]
        ring
      _ ≤ m₂ * 2 ^ e₂ := by gcongr
  · gcongr

theorem value_lt_value (h : a < b) : value a < value b := by
  obtain ⟨ha, hb, hrank⟩ := lt_iff.mp h
  have hx := fun s m e hm => @canonical_of_unpacked a s m e hm
  have hy := fun s m e hm => @canonical_of_unpacked b s m e hm
  unfold Comparable at ha hb
  unfold value
  generalize unpacked a = x at *
  generalize unpacked b = y at *
  rcases x with (_ | _) | _ | _ | ⟨_ | _, m₁, e₁, h₁⟩ <;> rcases y with (_ | _) | _ | _ | ⟨_ | _, m₂, e₂, h₂⟩ <;>
    simp [rank, valueOf, Prod.Lex.toLex_lt_toLex] at ha hb hrank ⊢
  case infinity.negative.finite.negative => exact EReal.bot_lt_coe (-magnitude m₂ e₂)
  case finite.negative.infinity.positive => exact EReal.coe_lt_top (-magnitude m₁ e₁)
  case zero.finite.positive => exact pos_magnitude h₂ e₂
  case finite.negative.zero => exact pos_magnitude h₁ e₁
  case finite.negative.finite.negative =>
    exact magnitude_lt (hy _ _ _ _ rfl) (hx _ _ _ _ rfl) (hrank.imp_right fun h => ⟨h.1.symm, h.2⟩)
  case finite.negative.finite.positive =>
    exact_mod_cast (neg_neg_of_pos (pos_magnitude h₁ e₁)).trans (pos_magnitude h₂ e₂)
  case finite.positive.finite.positive => exact magnitude_lt (hx _ _ _ _ rfl) (hy _ _ _ _ rfl) hrank

theorem valueOf_eq {x y : UnpackedFloat} (hx : x ≠ .notANumber) (hy : y ≠ .notANumber) (h : rank x = rank y) :
    valueOf x = valueOf y := by
  rcases x with (_ | _) | _ | _ | ⟨_ | _, m₁, e₁, _⟩ <;> rcases y with (_ | _) | _ | _ | ⟨_ | _, m₂, e₂, _⟩ <;>
    simp_all [rank, valueOf]

theorem value_le_value (h : a ≤ b) : value a ≤ value b := by
  obtain ⟨ha, hb, hrank⟩ := le_iff.mp h
  rcases hrank.lt_or_eq with hlt | heq
  · exact (value_lt_value (lt_iff.mpr ⟨ha, hb, hlt⟩)).le
  · exact (valueOf_eq ha hb heq).le

theorem le_iff_value : a ≤ b ↔ Comparable a ∧ Comparable b ∧ value a ≤ value b := by
  refine ⟨fun h => ⟨(le_iff.mp h).1, (le_iff.mp h).2.1, value_le_value h⟩, fun ⟨ha, hb, hvalue⟩ => ?_⟩
  exact (not_lt_iff hb ha).mp fun hlt => (value_lt_value hlt).not_ge hvalue

/-! ### Finite doubles -/

/-- The real number that a finite double stands for. -/
noncomputable def real (a : Float) : ℝ := (value a).toReal

theorem coe_real (ha : a.isFinite = true) : (real a : EReal) = value a := by
  have hfinite : (unpacked a).isFinite = true := ha
  unfold real value
  cases h : unpacked a with
  | infinity s =>
    rw [h] at hfinite
    cases hfinite
  | notANumber =>
    rw [h] at hfinite
    cases hfinite
  | zero s => simp [valueOf]
  | finite s m e hm => cases s <;> simp [valueOf]

theorem le_iff_real (ha : a.isFinite = true) (hb : b.isFinite = true) : a ≤ b ↔ real a ≤ real b := by
  rw [le_iff_value, ← coe_real ha, ← coe_real hb, EReal.coe_le_coe_iff]
  exact ⟨fun h => h.2.2, fun h => ⟨comparable_of_isFinite ha, comparable_of_isFinite hb, h⟩⟩

end Intendant.Double

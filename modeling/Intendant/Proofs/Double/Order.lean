import Mathlib.Algebra.Order.Group.Int
import Mathlib.Data.Prod.Lex

/-! # The order of doubles

A double unpacks to an infinity, a zero, a signed mantissa with an exponent, or NaN. Whatever is not NaN has
a place in a linear order (`rank`), and the comparisons of doubles are the comparisons of these places. So
`<` is a strict order, and `≤` is total between doubles that are not NaN. -/

namespace Intendant.Double
open Float.Model
open Float.Model.UnpackedFloat (Sign)

/-- What the bits of a double stand for. -/
def unpacked (a : Float) : UnpackedFloat := a.toModel.unpack

/-- The place of an unpacked double in the order: first the kind, then the exponent, then the mantissa.
    NaN has no place; the value given to it is never compared. -/
def rank : UnpackedFloat → Int ×ₗ Int ×ₗ Int
  | .infinity .negative => toLex (-2, toLex (0, 0))
  | .finite .negative m e _ => toLex (-1, toLex (-e, -m))
  | .zero _ => toLex (0, toLex (0, 0))
  | .finite .positive m e _ => toLex (1, toLex (e, m))
  | .infinity .positive => toLex (2, toLex (0, 0))
  | .notANumber => toLex (0, toLex (0, 0))

/-- A double that can be compared. -/
def Comparable (a : Float) : Prop := unpacked a ≠ .notANumber

theorem compare_sign :
    compare Sign.negative Sign.negative = .eq ∧ compare Sign.negative Sign.positive = .lt ∧
      compare Sign.positive Sign.negative = .gt ∧ compare Sign.positive Sign.positive = .eq :=
  ⟨rfl, rfl, rfl, rfl⟩

theorem isLE_then (e₁ e₂ : Int) (m₁ m₂ : Nat) :
    ((compare e₁ e₂).then (compare m₁ m₂)).isLE = true ↔ e₁ < e₂ ∨ e₁ = e₂ ∧ m₁ ≤ m₂ := by
  rw [Ordering.isLE_iff_ne_gt, Ordering.then_eq_gt, compare_gt_iff_gt, compare_gt_iff_gt, compare_eq_iff_eq]
  omega

theorem isGE_then (e₁ e₂ : Int) (m₁ m₂ : Nat) :
    ((compare e₁ e₂).then (compare m₁ m₂)).isGE = true ↔ e₂ < e₁ ∨ e₁ = e₂ ∧ m₂ ≤ m₁ := by
  rw [Ordering.isGE_iff_ne_lt, Ordering.then_eq_lt, compare_lt_iff_lt, compare_lt_iff_lt, compare_eq_iff_eq]
  omega

/-- Simp meets this before it goes into the number, whose shape carries a proof. -/
theorem finite_ne_notANumber {s : Sign} {m : Nat} {e : Int} {h : 0 < m} :
    UnpackedFloat.finite s m e h ≠ .notANumber := nofun

theorem unpacked_lt_iff (x y : UnpackedFloat) :
    x.lt y = true ↔ x ≠ .notANumber ∧ y ≠ .notANumber ∧ rank x < rank y := by
  rcases x with (_ | _) | _ | _ | ⟨_ | _, m₁, e₁, _⟩ <;> rcases y with (_ | _) | _ | _ | ⟨_ | _, m₂, e₂, _⟩ <;>
    dsimp only [UnpackedFloat.lt, UnpackedFloat.compare, rank, ne_eq] <;>
    simp [↓finite_ne_notANumber, compare_sign, Prod.Lex.toLex_lt_toLex, Ordering.then_eq_lt,
      compare_lt_iff_lt, Ordering.swap_eq_lt, Ordering.then_eq_gt, compare_gt_iff_gt]

theorem unpacked_le_iff (x y : UnpackedFloat) :
    x.le y = true ↔ x ≠ .notANumber ∧ y ≠ .notANumber ∧ rank x ≤ rank y := by
  rcases x with (_ | _) | _ | _ | ⟨_ | _, m₁, e₁, _⟩ <;> rcases y with (_ | _) | _ | _ | ⟨_ | _, m₂, e₂, _⟩ <;>
    dsimp only [UnpackedFloat.le, UnpackedFloat.compare, rank, ne_eq] <;>
    simp [↓finite_ne_notANumber, compare_sign, Prod.Lex.toLex_le_toLex, isLE_then, isGE_then]

theorem lt_iff {a b : Float} : a < b ↔ Comparable a ∧ Comparable b ∧ rank (unpacked a) < rank (unpacked b) := by
  rw [Comparable, Comparable, ← unpacked_lt_iff]
  show a.lt b = true ↔ _
  simp only [Float.lt, decide_eq_true_eq]
  rfl

theorem le_iff {a b : Float} : a ≤ b ↔ Comparable a ∧ Comparable b ∧ rank (unpacked a) ≤ rank (unpacked b) := by
  rw [Comparable, Comparable, ← unpacked_le_iff]
  show a.le b = true ↔ _
  simp only [Float.le, decide_eq_true_eq]
  rfl

theorem isNaN_eq_false {a : Float} : a.isNaN = false ↔ Comparable a := by
  unfold Comparable unpacked Float.isNaN Float.Model.isNaN
  cases a.toModel.unpack with
  | notANumber => exact ⟨nofun, fun h => absurd rfl h⟩
  | _ => exact ⟨fun _ => nofun, fun _ => rfl⟩

theorem comparable_of_isFinite {a : Float} (h : a.isFinite = true) : Comparable a := by
  intro hnan
  have hmodel : (unpacked a).isFinite = true := h
  rw [hnan] at hmodel
  cases hmodel

/-! ### A strict order -/

variable {a b c : Float}

protected theorem lt_irrefl (a : Float) : ¬ a < a := fun h => lt_irrefl _ (lt_iff.mp h).2.2

protected theorem lt_trans (h : a < b) (h' : b < c) : a < c := by
  obtain ⟨ha, -, hab⟩ := lt_iff.mp h
  obtain ⟨-, hc, hbc⟩ := lt_iff.mp h'
  exact lt_iff.mpr ⟨ha, hc, hab.trans hbc⟩

protected theorem le_trans (h : a ≤ b) (h' : b ≤ c) : a ≤ c := by
  obtain ⟨ha, -, hab⟩ := le_iff.mp h
  obtain ⟨-, hc, hbc⟩ := le_iff.mp h'
  exact le_iff.mpr ⟨ha, hc, hab.trans hbc⟩

theorem not_lt_iff (ha : Comparable a) (hb : Comparable b) : ¬ a < b ↔ b ≤ a := by
  rw [lt_iff, le_iff]
  simp [ha, hb]

theorem le_of_lt (h : a < b) : a ≤ b := by
  obtain ⟨ha, hb, hab⟩ := lt_iff.mp h
  exact le_iff.mpr ⟨ha, hb, hab.le⟩

theorem comparable_of_nonneg (h : 0 ≤ a) : Comparable a := (le_iff.mp h).2.1

end Intendant.Double

import Intendant.Graph.Search
import Intendant.Proofs.Double.Sum

/-! # Lawful costs

What a search assumes of its costs: improving is a strict order, and adding a cost that is neither negative
nor undefined never improves a score. Doubles are lawful costs. That a sum of doubles grows with its first
term is not assumed, so what is left of the price of a step once the score before it fell is a notion of its
own (`Lawful.Charged`). -/

namespace Intendant.Cost
variable {κ : Type} [Cost κ]

/-- A cost is no more than another one if that one is no improvement on it. -/
def AtMost (a b : κ) : Prop := less b a = false

/-- Improving on a cost is a strict order. -/
class Strict (κ : Type) [Cost κ] : Prop where
  less_irrefl : ∀ a : κ, less a a = false
  less_trans : ∀ {a b c : κ}, less a b = true → less b c = true → less a c = true

/-- Priorities are totally ordered. -/
class Ranked (κ : Type) [Cost κ] : Prop where
  notAfter_total : ∀ a b : κ, notAfter a b = true ∨ notAfter b a = true
  notAfter_trans : ∀ {a b c : κ}, notAfter a b = true → notAfter b c = true → notAfter a c = true

/-- Sound costs are those that a score can be made of. `Charged a c b` says of a score `b` that it was made
    of a score that `a` has taken the place of, and the cost `c`. -/
class Lawful (κ : Type) [Cost κ] extends Strict κ where
  Sound : κ → Prop
  Charged : κ → κ → κ → Prop
  sound_zero : Sound zero
  sound_one : Sound one
  sound_add : ∀ {a b : κ}, Sound a → Sound b → Sound (add a b)
  zero_atMost : ∀ {a : κ}, Sound a → AtMost zero a
  atMost_trans : ∀ {a b c : κ}, Sound a → Sound b → Sound c → AtMost a b → AtMost b c → AtMost a c
  charged_add : ∀ {a c : κ}, Sound a → Sound c → Charged a c (add a c)
  charged_of_atMost : ∀ {a a' b c : κ}, Sound a → Sound a' → Sound b → AtMost a' a → Charged a c b → Charged a' c b
  atMost_of_charged : ∀ {a b c : κ}, Charged a c b → AtMost a b

theorem AtMost.refl [Strict κ] (a : κ) : AtMost a a := Strict.less_irrefl a

theorem AtMost.of_less [Strict κ] {a b : κ} (h : less a b = true) : AtMost a b := by
  unfold AtMost
  cases h' : less b a
  · rfl
  · rw [← Strict.less_irrefl a, Strict.less_trans h h']

theorem AtMost.not_less {a b : κ} (h : AtMost a b) : less b a ≠ true := by
  rw [h]
  exact Bool.false_ne_true

theorem Lawful.atMost_add [Lawful κ] {a b : κ} (ha : Sound a) (hb : Sound b) : AtMost a (add a b) :=
  atMost_of_charged (charged_add ha hb)

/-! ### Doubles -/

theorem atMost_iff {a b : Float} (ha : 0 ≤ a) (hb : 0 ≤ b) : AtMost a b ↔ a ≤ b := by
  have h := Double.not_lt_iff (Double.comparable_of_nonneg hb) (Double.comparable_of_nonneg ha)
  rw [← h]
  exact decide_eq_false_iff_not

instance : Strict Float where
  less_irrefl a := decide_eq_false (Double.lt_irrefl a)
  less_trans h h' := decide_eq_true (Double.lt_trans (of_decide_eq_true h) (of_decide_eq_true h'))

theorem atMost_trans_of_nonneg {a b c : Float} (ha : 0 ≤ a) (hb : 0 ≤ b) (hc : 0 ≤ c) (h : AtMost a b)
    (h' : AtMost b c) : AtMost a c :=
  (atMost_iff ha hc).mpr (Double.le_trans ((atMost_iff ha hb).mp h) ((atMost_iff hb hc).mp h'))

instance : Lawful Float where
  Sound a := 0 ≤ a
  Charged a _ b := AtMost a b
  sound_zero := by decide
  sound_one := by decide
  sound_add := Double.add_nonneg
  zero_atMost ha := (atMost_iff (by decide) ha).mpr ha
  atMost_trans := atMost_trans_of_nonneg
  charged_add ha hc := (atMost_iff ha (Double.add_nonneg ha hc)).mpr (Double.le_add_of_nonneg ha hc)
  charged_of_atMost ha ha' hb h h' := atMost_trans_of_nonneg ha' ha hb h h'
  atMost_of_charged h := h

theorem floatNotAfter_iff {a b : Float} : floatNotAfter a b = true ↔ ¬Double.Comparable b ∨ a ≤ b := by
  rw [floatNotAfter, Bool.or_eq_true, decide_eq_true_eq, ← Double.isNaN_eq_false, Bool.not_eq_false]

instance : Ranked Float where
  notAfter_total a b := by
    simp only [notAfter, floatNotAfter_iff]
    by_cases ha : Double.Comparable a
    · by_cases hb : Double.Comparable b
      · by_cases hab : a < b
        · exact .inl (.inr (Double.le_of_lt hab))
        · exact .inr (.inr ((Double.not_lt_iff ha hb).mp hab))
      · exact .inl (.inl hb)
    · exact .inr (.inl ha)
  notAfter_trans {a b c} h h' := by
    simp only [notAfter, floatNotAfter_iff] at h h' ⊢
    rcases h' with hc | hbc
    · exact .inl hc
    · have hb := (Double.le_iff.mp hbc).1
      exact .inr (Double.le_trans (h.resolve_left fun hn => hn hb) hbc)

end Intendant.Cost

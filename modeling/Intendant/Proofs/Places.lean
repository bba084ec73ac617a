/-! # Lists around one place

What is at a place of a list has something before it and something after it, and changing it leaves both alone. -/

namespace Intendant.Places
variable {α : Type} {xs : List α} {index : Nat} {x : α}

theorem exists_split (h : xs[index]? = some x) : ∃ before after, xs = before ++ x :: after ∧ before.length = index := by
  obtain ⟨hindex, rfl⟩ := List.getElem?_eq_some_iff.mp h
  refine ⟨xs.take index, xs.drop (index + 1), ?_, List.length_take_of_le (Nat.le_of_lt hindex)⟩
  rw [List.getElem_cons_drop, List.take_append_drop]

theorem getElem?_split (before after : List α) (x : α) : (before ++ x :: after)[before.length]? = some x := by
  rw [List.getElem?_append_right (Nat.le_refl _), Nat.sub_self]
  rfl

theorem set_split (before after : List α) (x y : α) :
    (before ++ x :: after).set before.length y = before ++ y :: after := by
  rw [List.set_append_right _ _ (Nat.le_refl _), Nat.sub_self]
  rfl

theorem eraseIdx_split (before after : List α) (x : α) : (before ++ x :: after).eraseIdx before.length = before ++ after := by
  rw [List.eraseIdx_append_of_length_le (Nat.le_refl _), Nat.sub_self]
  rfl

end Intendant.Places

import Intendant.Proofs.Graph.Cost

/-! # The entries of an open set

Adding a value adds its entry, taking one takes the first entry away, and the entries stay in the order of
their priorities. -/

namespace Intendant.OpenSet
variable {α κ : Type}

theorem pop?_eq_none {s : OpenSet α κ} : s.pop? = none ↔ s.entries = [] := by
  unfold pop?
  split <;> simp_all

theorem pop?_eq_some {s t : OpenSet α κ} {v : α} {p : κ} :
    s.pop? = some ((v, p), t) ↔ s.entries = (p, v) :: t.entries := by
  rcases s with ⟨_ | ⟨⟨q, w⟩, rest⟩⟩
  · simp [pop?]
  · cases t
    simp [pop?, and_comm]

variable [Cost κ]

theorem mem_place {p : κ} {v : α} {l : List (κ × α)} {x : κ × α} : x ∈ place p v l ↔ x = (p, v) ∨ x ∈ l := by
  induction l with
  | nil => simp [place]
  | cons y l ih =>
    unfold place
    split
    · simp only [List.mem_cons, ih]
      exact or_left_comm
    · simp

theorem length_place (p : κ) (v : α) (l : List (κ × α)) : (place p v l).length = l.length + 1 := by
  induction l with
  | nil => rfl
  | cons y l ih =>
    unfold place
    split
    · simp [ih]
    · simp

@[simp] theorem mem_push {s : OpenSet α κ} {v : α} {p : κ} {x : κ × α} :
    x ∈ (s.push v p).entries ↔ x = (p, v) ∨ x ∈ s.entries := mem_place

@[simp] theorem size_push (s : OpenSet α κ) (v : α) (p : κ) : (s.push v p).size = s.size + 1 :=
  length_place p v s.entries

theorem perm_place (p : κ) (v : α) (l : List (κ × α)) : (place p v l).Perm ((p, v) :: l) := by
  induction l with
  | nil => exact .refl _
  | cons y l ih =>
    unfold place
    split
    · exact (ih.cons y).trans (.swap ..)
    · exact .refl _

/-- The entries are in the order of their priorities. -/
def Ordered (s : OpenSet α κ) : Prop := s.entries.Pairwise fun x y => Cost.notAfter x.1 y.1 = true

theorem Ordered.first {s t : OpenSet α κ} {v : α} {p : κ} (h : s.Ordered) (hp : s.pop? = some ((v, p), t)) :
    t.Ordered ∧ ∀ x ∈ t.entries, Cost.notAfter p x.1 = true := by
  unfold Ordered at h
  rw [pop?_eq_some.mp hp] at h
  obtain ⟨hfirst, hrest⟩ := List.pairwise_cons.mp h
  exact ⟨hrest, hfirst⟩

theorem Ordered.empty : (empty : OpenSet α κ).Ordered := List.Pairwise.nil

/-- A relation along the entries stays one if it holds between the new entry and those that it is placed behind, and
    between it and whatever comes at or after an entry that it is placed before. -/
theorem pairwise_place {r : κ × α → κ × α → Prop} {p : κ} {v : α} {l : List (κ × α)}
    (hbehind : ∀ y ∈ l, Cost.notAfter y.1 p = true → r y (p, v)) (hbefore : ∀ y, ¬Cost.notAfter y.1 p = true → r (p, v) y)
    (hpast : ∀ x y, ¬Cost.notAfter y.1 p = true → r y x → r (p, v) x) (h : l.Pairwise r) : (place p v l).Pairwise r := by
  induction l with
  | nil => exact List.pairwise_singleton _ _
  | cons y l ih =>
    obtain ⟨hy, hl⟩ := List.pairwise_cons.mp h
    unfold place
    split
    · rename_i hle
      refine List.pairwise_cons.mpr ⟨fun x hx => ?_, ih (fun x hx => hbehind x (List.mem_cons_of_mem y hx)) hl⟩
      rcases mem_place.mp hx with rfl | hx
      · exact hbehind y List.mem_cons_self hle
      · exact hy x hx
    · rename_i hgt
      refine List.pairwise_cons.mpr ⟨fun x hx => ?_, h⟩
      rcases List.mem_cons.mp hx with rfl | hx
      · exact hbefore _ hgt
      · exact hpast x y hgt (hy x hx)

variable [Cost.Ranked κ]

theorem notAfter_of_not {p q : κ} (h : ¬Cost.notAfter q p = true) : Cost.notAfter p q = true :=
  (Cost.Ranked.notAfter_total q p).resolve_left h

theorem Ordered.push {s : OpenSet α κ} (h : s.Ordered) (v : α) (p : κ) : (s.push v p).Ordered :=
  pairwise_place (fun _ _ hle => hle) (fun _ hgt => notAfter_of_not hgt)
    (fun _ _ hgt hyx => Cost.Ranked.notAfter_trans (notAfter_of_not hgt) hyx) h

/-! ### Ties -/

/-- An entry is taken before another one: its priority says so, and if the other one has the same right, its value is
    the smaller one. -/
def Sooner (x y : κ × Nat) : Prop :=
  Cost.notAfter x.1 y.1 = true ∧ (Cost.notAfter y.1 x.1 = true → x.2 < y.2)

/-- Values that are added in their order are taken in their order where their priorities agree. -/
theorem pairwise_sooner_place (p : κ) {v : Nat} {l : List (κ × Nat)} (hlast : ∀ x ∈ l, x.2 < v) (h : l.Pairwise Sooner) :
    (place p v l).Pairwise Sooner := by
  refine pairwise_place (fun y hy hle => ⟨hle, fun _ => hlast y hy⟩)
    (fun y hgt => ⟨notAfter_of_not hgt, fun hle => absurd hle hgt⟩) (fun x y hgt hyx => ?_) h
  exact ⟨Cost.Ranked.notAfter_trans (notAfter_of_not hgt) hyx.1,
    fun hxp => absurd (Cost.Ranked.notAfter_trans hyx.1 hxp) hgt⟩

end Intendant.OpenSet

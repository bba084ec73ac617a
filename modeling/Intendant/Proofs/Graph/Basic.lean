import Mathlib.Algebra.GroupWithZero.Nat
import Intendant.Graph.Basic

/-! # The view of a graph

What adding a vertex or an edge changes about the number of vertices, their values and their edges, and where
the newest vertex with a value is. -/

namespace Intendant.Graph
variable {ν κ : Type} {g : Graph ν κ} {u v : Nat} {value : ν} {e : Edge κ}

/-! ### Vertices -/

theorem lt_size_of_mem_successors (h : e ∈ g.successors u) : u < g.size := by
  unfold successors at h
  split at h
  · rename_i hu
    exact (Array.getElem?_eq_some_iff.mp hu).1
  · cases h

theorem value?_isSome : (g.value? u).isSome = true ↔ u < g.size := by
  simp [value?, size]

theorem lt_size_of_value? (h : g.value? u = some value) : u < g.size :=
  value?_isSome.mp (h ▸ rfl)

theorem exists_value? (h : u < g.size) : ∃ value, g.value? u = some value :=
  Option.isSome_iff_exists.mp (value?_isSome.mpr h)

@[simp] theorem size_empty : (empty : Graph ν κ).size = 0 := rfl

@[simp] theorem successors_empty (u : Nat) : (empty : Graph ν κ).successors u = [] := by
  simp [empty, successors]

@[simp] theorem size_addVertex (g : Graph ν κ) (value : ν) : (g.addVertex value).size = g.size + 1 := by
  simp [size, addVertex]

theorem value?_addVertex (g : Graph ν κ) (value : ν) (u : Nat) :
    (g.addVertex value).value? u = if u = g.size then some value else g.value? u := by
  rw [value?, addVertex, Array.getElem?_push]
  by_cases h : u = g.size
  · rw [if_pos h, if_pos (show u = g.vertices.size from h), Option.map_some]
  · rw [if_neg h, if_neg (show ¬u = g.vertices.size from h), value?]

@[simp] theorem successors_addVertex (g : Graph ν κ) (value : ν) (u : Nat) :
    (g.addVertex value).successors u = g.successors u := by
  simp only [successors, addVertex, Array.getElem?_push]
  by_cases h : u = g.vertices.size
  · simp [h]
  · rw [if_neg h]

/-! ### Edges -/

variable (s t : Nat) (c : κ) (a : Action)

@[simp] theorem size_addEdge (g : Graph ν κ) : (g.addEdge s t c a).size = g.size := by
  unfold addEdge
  split
  · simp [size]
  · rfl

@[simp] theorem value?_addEdge (g : Graph ν κ) (u : Nat) : (g.addEdge s t c a).value? u = g.value? u := by
  unfold addEdge
  split
  · simp only [value?, Array.getElem?_modify]
    split <;> cases g.vertices[u]? <;> rfl
  · rfl

variable {s t c a}

theorem mem_successors_addEdge :
    e ∈ (g.addEdge s t c a).successors u ↔
      e ∈ g.successors u ∨ s < g.size ∧ t < g.size ∧ u = s ∧ e = ⟨t, c, a⟩ := by
  unfold addEdge
  split
  · rename_i ht
    simp only [successors, Array.getElem?_modify]
    by_cases hu : s = u
    · subst hu
      cases hv : g.vertices[s]? with
      | none =>
        have hs : ¬s < g.size := Nat.not_lt.mpr (Array.getElem?_eq_none_iff.mp hv)
        simp [hs]
      | some v =>
        have hs : s < g.size := (Array.getElem?_eq_some_iff.mp hv).1
        simp [hs, ht]
    · simp [hu, Ne.symm hu]
  · rename_i ht
    simp [ht]

theorem successors_addEdge (hs : s < g.size) (ht : t < g.size) (u : Nat) :
    (g.addEdge s t c a).successors u = if u = s then g.successors u ++ [⟨t, c, a⟩] else g.successors u := by
  obtain ⟨v, hv⟩ : ∃ v, g.vertices[s]? = some v := ⟨_, Array.getElem?_eq_getElem hs⟩
  unfold addEdge
  rw [if_pos ht]
  simp only [successors, Array.getElem?_modify]
  by_cases hu : u = s
  · subst hu
    simp [hv]
  · simp [hu, Ne.symm hu]

theorem successors_addEdge_of_not (h : ¬(s < g.size ∧ t < g.size)) (u : Nat) :
    (g.addEdge s t c a).successors u = g.successors u := by
  unfold addEdge
  split
  · rename_i ht
    have hnone : g.vertices[s]? = none := Array.getElem?_eq_none_iff.mpr (Nat.le_of_not_lt fun hs => h ⟨hs, ht⟩)
    simp only [successors, Array.getElem?_modify]
    by_cases hu : s = u
    · subst hu
      simp [hnone]
    · rw [if_neg hu]
  · rfl

theorem sublist_addEdge (g : Graph ν κ) (s t : Nat) (c : κ) (a : Action) (u : Nat) :
    (g.successors u).Sublist ((g.addEdge s t c a).successors u) := by
  by_cases h : s < g.size ∧ t < g.size
  · rw [successors_addEdge h.1 h.2]
    split
    · exact List.sublist_append_left ..
    · exact .refl _
  · exact (successors_addEdge_of_not h u).symm ▸ .refl _

theorem successors_eq_nil (h : g.size ≤ u) : g.successors u = [] := by
  have hnone : g.vertices[u]? = none := Array.getElem?_eq_none_iff.mpr h
  simp [successors, hnone]

theorem ne_of_mem_successors (hnil : g.successors u = []) {v : Nat} (he : e ∈ g.successors v) : v ≠ u := by
  rintro rfl
  rw [hnil] at he
  exact List.not_mem_nil he

theorem edgeCount_eq_sum (g : Graph ν κ) : g.edgeCount = (g.vertices.toList.map (·.edges.size)).sum := by
  rw [edgeCount, ← Array.foldl_toList, List.sum_eq_foldl, List.foldl_map]

theorem edgeCount_pos (h : e ∈ g.successors u) : 0 < g.edgeCount := by
  unfold successors at h
  split at h
  · rename_i v hv
    have hmem : v ∈ g.vertices.toList := Array.mem_toList_iff.mpr (Array.mem_of_getElem? hv)
    rw [edgeCount_eq_sum, List.sum_pos_iff_exists_pos_nat]
    exact ⟨v.edges.size, List.mem_map.mpr ⟨v, hmem, rfl⟩, Array.size_pos_of_mem (Array.mem_toList_iff.mp h)⟩
  · cases h

theorem edgeCount_addEdge (hs : s < g.size) (ht : t < g.size) : (g.addEdge s t c a).edgeCount = g.edgeCount + 1 := by
  have hs' : s < g.vertices.toList.length := hs
  have hsplit : g.vertices.toList =
      g.vertices.toList.take s ++ g.vertices.toList[s] :: g.vertices.toList.drop (s + 1) := by
    rw [← List.drop_eq_getElem_cons, List.take_append_drop]
  have hcount := congrArg (fun l => (l.map (·.edges.size)).sum) hsplit
  rw [edgeCount_eq_sum, edgeCount_eq_sum, addEdge, if_pos ht, Array.toList_modify, List.modify_eq_take_cons_drop hs']
  simp only [List.map_append, List.map_cons, List.sum_append, List.sum_cons, Array.size_push] at hcount ⊢
  omega

theorem value?_foldl_addEdge (g : Graph ν κ) (ids : List Nat) (t : Nat) (c : κ) (a : Action) (u : Nat) :
    (ids.foldl (fun g id => g.addEdge id t c a) g).value? u = g.value? u :=
  List.foldlRecOn (motive := fun h : Graph ν κ => h.value? u = g.value? u) ids _ rfl
    fun _ hh id _ => (value?_addEdge id t c a _ u).trans hh

theorem mem_successors_foldl_addEdge {ids : List Nat} (h : e ∈ (ids.foldl (fun g id => g.addEdge id t c a) g).successors u) :
    e ∈ g.successors u ∨ u ∈ ids ∧ e = ⟨t, c, a⟩ := by
  induction ids generalizing g with
  | nil => exact .inl h
  | cons id ids ih =>
    rcases ih h with he | ⟨hu, heq⟩
    · rcases mem_successors_addEdge.mp he with he | ⟨-, -, rfl, heq⟩
      · exact .inl he
      · exact .inr ⟨List.mem_cons_self, heq⟩
    · exact .inr ⟨List.mem_cons_of_mem _ hu, heq⟩

/-- Edges from different vertices to one vertex, each behind the edges that its vertex has. -/
theorem successors_foldl_addEdge {ids : List Nat} (hn : ids.Nodup) (hids : ∀ id ∈ ids, id < g.size) (ht : t < g.size)
    (u : Nat) : (ids.foldl (fun g id => g.addEdge id t c a) g).successors u =
      g.successors u ++ if u ∈ ids then [⟨t, c, a⟩] else [] := by
  induction ids generalizing g with
  | nil => simp
  | cons id ids ih =>
    obtain ⟨hid, hn⟩ := List.nodup_cons.mp hn
    have hids' : ∀ x ∈ ids, x < (g.addEdge id t c a).size := by
      intro x hx
      rw [size_addEdge]
      exact hids x (List.mem_cons_of_mem id hx)
    rw [List.foldl_cons, ih hn hids' (by rwa [size_addEdge]), successors_addEdge (hids id List.mem_cons_self) ht]
    by_cases hu : u = id
    · subst hu
      simp [hid]
    · simp [hu]

theorem edgeCount_foldl_addEdge {ids : List Nat} (hids : ∀ id ∈ ids, id < g.size) (ht : t < g.size) :
    (ids.foldl (fun g id => g.addEdge id t c a) g).edgeCount = g.edgeCount + ids.length := by
  induction ids generalizing g with
  | nil => rfl
  | cons id ids ih =>
    have hids' : ∀ x ∈ ids, x < (g.addEdge id t c a).size := by
      intro x hx
      rw [size_addEdge]
      exact hids x (List.mem_cons_of_mem id hx)
    rw [List.foldl_cons, ih hids' (by rwa [size_addEdge]), edgeCount_addEdge (hids id List.mem_cons_self) ht,
      List.length_cons, Nat.add_assoc, Nat.add_comm 1]

/-- What the utilities of all edges and of the new one satisfy. -/
theorem utility_addEdge {P : κ → Prop} (h : ∀ u, ∀ e ∈ g.successors u, P e.utility) (hc : P c) :
    ∀ u, ∀ e ∈ (g.addEdge s t c a).successors u, P e.utility := by
  intro u e he
  rcases mem_successors_addEdge.mp he with he | ⟨-, -, -, rfl⟩
  · exact h u e he
  · exact hc

/-! ### The list of values -/

theorem getElem?_values (g : Graph ν κ) (u : Nat) : g.values[u]? = g.value? u := by
  simp [values, value?]

@[simp] theorem length_values (g : Graph ν κ) : g.values.length = g.size := by
  simp [values, size]

theorem values_addVertex (g : Graph ν κ) (value : ν) : (g.addVertex value).values = g.values ++ [value] := by
  simp [values, addVertex]

theorem values_congr {g' : Graph ν κ} (h : ∀ u, g'.value? u = g.value? u) : g'.values = g.values := by
  refine List.ext_getElem? fun u => ?_
  rw [getElem?_values, getElem?_values, h]

@[simp] theorem values_addEdge (g : Graph ν κ) (s t : Nat) (c : κ) (a : Action) : (g.addEdge s t c a).values = g.values :=
  values_congr (value?_addEdge s t c a g)

/-! ### The newest vertex with a value -/

section
variable [DecidableEq ν]

theorem newestBelow?_eq_some {n : Nat} (h : g.newestBelow? value n = some u) : g.value? u = some value ∧ u < n := by
  induction n with
  | zero => cases h
  | succ n ih =>
    unfold newestBelow? at h
    split at h
    · rename_i v hv
      split at h
      · rename_i hvalue
        cases h
        exact ⟨by simp [value?, hv, hvalue], Nat.lt_succ_self _⟩
      · exact ⟨(ih h).1, Nat.lt_succ_of_lt (ih h).2⟩
    · exact ⟨(ih h).1, Nat.lt_succ_of_lt (ih h).2⟩

theorem newestBelow?_max {n : Nat} (h : g.newestBelow? value n = some u) (huv : u < v) (hv : v < n) :
    g.value? v ≠ some value := by
  induction n with
  | zero => cases hv
  | succ n ih =>
    unfold newestBelow? at h
    rcases Nat.lt_succ_iff_lt_or_eq.mp hv with hv | rfl
    · split at h
      · split at h
        · cases h
          exact absurd hv (Nat.not_lt.mpr (Nat.le_of_lt huv))
        · exact ih h hv
      · exact ih h hv
    · split at h
      · rename_i x hx
        split at h
        · cases h
          exact absurd huv (Nat.lt_irrefl _)
        · rename_i hvalue
          simpa [value?, hx] using hvalue
      · rename_i hx
        simp [value?, hx]

theorem newestBelow?_eq_none {n : Nat} (h : g.newestBelow? value n = none) (hu : u < n) : g.value? u ≠ some value := by
  induction n with
  | zero => cases hu
  | succ n ih =>
    unfold newestBelow? at h
    rcases Nat.lt_succ_iff_lt_or_eq.mp hu with hu | rfl
    · refine ih ?_ hu
      split at h
      · split at h
        · cases h
        · exact h
      · exact h
    · split at h
      · rename_i v hv
        split at h
        · cases h
        · rename_i hvalue
          simpa [value?, hv] using hvalue
      · rename_i hv
        simp [value?, hv]

theorem value?_of_newest? (h : g.newest? value = some u) : g.value? u = some value :=
  (newestBelow?_eq_some h).1

theorem newest?_max (h : g.newest? value = some u) (huv : u < v) : g.value? v ≠ some value := by
  intro hv
  exact newestBelow?_max h huv (lt_size_of_value? hv) hv

theorem value?_of_newest?_eq_none (h : g.newest? value = none) (u : Nat) : g.value? u ≠ some value := by
  intro hu
  exact newestBelow?_eq_none h (lt_size_of_value? hu) hu

theorem newest?_eq_some_iff :
    g.newest? value = some u ↔ g.value? u = some value ∧ ∀ v, u < v → g.value? v ≠ some value := by
  constructor
  · intro h
    exact ⟨value?_of_newest? h, fun _ huv => newest?_max h huv⟩
  · rintro ⟨hu, hmax⟩
    cases h : g.newest? value with
    | none => exact absurd hu (value?_of_newest?_eq_none h u)
    | some v =>
      rcases Nat.lt_trichotomy u v with huv | rfl | hvu
      · exact absurd (value?_of_newest? h) (hmax v huv)
      · rfl
      · exact absurd hu (newest?_max h hvu)

theorem newest?_eq_none_iff : g.newest? value = none ↔ ∀ u, g.value? u ≠ some value := by
  constructor
  · exact value?_of_newest?_eq_none
  · intro h
    cases hnewest : g.newest? value with
    | none => rfl
    | some u => exact absurd (value?_of_newest? hnewest) (h u)

/-- Where the newest vertex with a value is depends on the values only. -/
theorem newest?_congr {g' : Graph ν κ} (h : ∀ u, g'.value? u = g.value? u) (value : ν) :
    g'.newest? value = g.newest? value := by
  cases hnewest : g.newest? value with
  | none =>
    refine newest?_eq_none_iff.mpr fun u => ?_
    rw [h]
    exact value?_of_newest?_eq_none hnewest u
  | some u =>
    refine newest?_eq_some_iff.mpr ⟨(h u).trans (value?_of_newest? hnewest), fun v huv => ?_⟩
    rw [h]
    exact newest?_max hnewest huv

@[simp] theorem newest?_addEdge (g : Graph ν κ) (s t : Nat) (c : κ) (a : Action) (value : ν) :
    (g.addEdge s t c a).newest? value = g.newest? value :=
  newest?_congr (value?_addEdge s t c a g) value

theorem newest?_addVertex (g : Graph ν κ) (fresh value : ν) :
    (g.addVertex fresh).newest? value = if value = fresh then some g.size else g.newest? value := by
  by_cases hfresh : value = fresh
  · subst hfresh
    rw [if_pos rfl]
    refine newest?_eq_some_iff.mpr ⟨by rw [value?_addVertex, if_pos rfl], fun v hv hvalue => ?_⟩
    have hsize := lt_size_of_value? hvalue
    rw [size_addVertex] at hsize
    omega
  · rw [if_neg hfresh]
    cases hnewest : g.newest? value with
    | none =>
      refine newest?_eq_none_iff.mpr fun u => ?_
      rw [value?_addVertex]
      split
      · exact fun heq => hfresh (Option.some.inj heq).symm
      · exact value?_of_newest?_eq_none hnewest u
    | some u =>
      have hu := value?_of_newest? hnewest
      refine newest?_eq_some_iff.mpr ⟨?_, fun v huv => ?_⟩
      · rw [value?_addVertex, if_neg (Nat.ne_of_lt (lt_size_of_value? hu)), hu]
      · rw [value?_addVertex]
        split
        · exact fun heq => hfresh (Option.some.inj heq).symm
        · exact newest?_max hnewest huv

end
end Intendant.Graph

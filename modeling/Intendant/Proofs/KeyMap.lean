import Intendant.KeyMap
import Mathlib.Data.List.Perm.Subperm

/-! # The names in a map

The names of a map are those that its view has a value for (`mem_keys`). They are in order, so a map has no more names
than another one that has all of them, and two maps of one size with the names of the first one in the second one have
the same names (`mem_keys_iff_of_size`). -/

namespace Intendant.KeyMap
variable {α β : Type} {m : KeyMap α} {n : KeyMap β} {k : String}

theorem mem_keys : k ∈ m.keys ↔ (m.get? k).isSome = true := by
  rw [keys, List.mem_map, Option.isSome_iff_exists]
  constructor
  · rintro ⟨⟨_, v⟩, hmem, rfl⟩
    exact ⟨v, mem_entries_iff.mp hmem⟩
  · rintro ⟨v, hv⟩
    exact ⟨(k, v), mem_entries_iff.mpr hv, rfl⟩

theorem keys_sorted (m : KeyMap α) : m.keys.Pairwise (· < ·) := m.sorted.map _ fun _ _ h => h

theorem keys_nodup (m : KeyMap α) : m.keys.Nodup := (keys_sorted m).imp String.ne_of_lt

@[simp] theorem length_keys (m : KeyMap α) : m.keys.length = m.size := List.length_map ..

theorem size_eq_of_keys (h : ∀ k, k ∈ m.keys ↔ k ∈ n.keys) : m.size = n.size := by
  rw [← length_keys m, ← length_keys n]
  exact ((List.perm_ext_iff_of_nodup (keys_nodup m) (keys_nodup n)).mpr h).length_eq

theorem mem_keys_iff_of_size (hsize : m.size = n.size) (h : ∀ k ∈ m.keys, k ∈ n.keys) : k ∈ m.keys ↔ k ∈ n.keys := by
  have hsub : m.keys.Subperm n.keys := (keys_nodup m).subperm h
  exact (hsub.perm_of_length_le (Nat.le_of_eq (by rw [length_keys, length_keys, hsize]))).mem_iff

theorem isEmpty_eq_false : m.isEmpty = false ↔ ∃ k, k ∈ m.keys := by
  rw [isEmpty, List.isEmpty_eq_false_iff_exists_mem]
  constructor
  · rintro ⟨e, he⟩
    exact ⟨e.1, List.mem_map_of_mem he⟩
  · rintro ⟨k, hk⟩
    obtain ⟨e, he, -⟩ := List.mem_map.mp hk
    exact ⟨e, he⟩

theorem get?_filter (p : String → α → Bool) (m : KeyMap α) (k : String) :
    (m.filter p).get? k = (m.get? k).filter (p k) := by
  refine Option.ext fun v => ?_
  rw [← mem_entries_iff, Option.filter_eq_some_iff, ← mem_entries_iff]
  exact List.mem_filter

theorem lookup_map (f : α → β) (k : String) (l : List (String × α)) :
    lookup k (l.map fun e => (e.1, f e.2)) = (lookup k l).map f := by
  induction l with
  | nil => rfl
  | cons e l ih =>
    rw [List.map_cons, lookup, lookup, ih]
    split <;> rfl

@[simp] theorem get?_map (f : α → β) (m : KeyMap α) (k : String) : (m.map f).get? k = (m.get? k).map f :=
  lookup_map f k m.entries

end Intendant.KeyMap

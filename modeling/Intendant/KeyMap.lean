/-! # Finite maps by name

Objectives, pods, telemetry, resources, annotations, profiles and intents are all kept by name, and
wherever their order shows it is the order of the names by code point. A `KeyMap` is the list of its
entries in that order, so two maps with the same entries are the same value.

The main statements are `get?_insert` and `get?_erase`, which say what an update does to the view
`get?`, and `ext_get?`: a map is determined by its view. -/

namespace Intendant

/-- A finite map from names to values. Its entries are strictly ordered by name. -/
structure KeyMap (α : Type) where
  entries : List (String × α)
  sorted : entries.Pairwise fun a b => a.1 < b.1

namespace KeyMap
variable {α β : Type}

theorem eq_of_entries {a b : KeyMap α} (h : a.entries = b.entries) : a = b := by
  cases a
  cases b
  cases h
  rfl

instance [DecidableEq α] : DecidableEq (KeyMap α) := fun a b =>
  if h : a.entries = b.entries then isTrue (eq_of_entries h)
  else isFalse fun e => h (e ▸ rfl)

/-- The map without keys. -/
def empty : KeyMap α := ⟨[], .nil⟩

instance : Inhabited (KeyMap α) := ⟨empty⟩
instance : EmptyCollection (KeyMap α) := ⟨empty⟩

/-- The value that an ordered list of entries holds under a name. -/
def lookup (k : String) : List (String × α) → Option α
  | [] => none
  | (k', v) :: rest => if k = k' then some v else lookup k rest

/-- The value of a key. -/
def get? (m : KeyMap α) (k : String) : Option α := lookup k m.entries

/-- Whether a key has a value. -/
def contains (m : KeyMap α) (k : String) : Bool := (m.get? k).isSome

/-- Sets the value of one name in an ordered list of entries. -/
def put (k : String) (v : α) : List (String × α) → List (String × α)
  | [] => [(k, v)]
  | (k', v') :: rest =>
    if k < k' then (k, v) :: (k', v') :: rest
    else if k = k' then (k, v) :: rest
    else (k', v') :: put k v rest

theorem mem_put {k : String} {v : α} {e : String × α} {l : List (String × α)} (h : e ∈ put k v l) :
    e = (k, v) ∨ e ∈ l := by
  induction l with
  | nil => simpa [put] using h
  | cons hd tl ih =>
    unfold put at h
    split at h
    · simpa using h
    · split at h
      · rcases List.mem_cons.mp h with h | h
        · exact .inl h
        · exact .inr (.tail _ h)
      · rcases List.mem_cons.mp h with h | h
        · exact .inr (h ▸ .head _)
        · exact (ih h).imp id (.tail _)

theorem lt_of_not_lt_of_ne {a b : String} (h : ¬ a < b) (n : a ≠ b) : b < a := by
  by_cases hb : b < a
  · exact hb
  · exact absurd (String.le_antisymm (String.not_lt.mp hb) (String.not_lt.mp h)) n

theorem put_sorted {k : String} {v : α} {l : List (String × α)}
    (h : l.Pairwise fun a b => a.1 < b.1) : (put k v l).Pairwise fun a b => a.1 < b.1 := by
  induction l with
  | nil => simp [put]
  | cons hd tl ih =>
    obtain ⟨hhd, htl⟩ := List.pairwise_cons.mp h
    unfold put
    split
    · next hlt =>
      refine List.pairwise_cons.mpr ⟨fun e he => ?_, h⟩
      rcases List.mem_cons.mp he with rfl | he
      · exact hlt
      · exact String.lt_trans hlt (hhd e he)
    · split
      · next heq => exact List.pairwise_cons.mpr ⟨fun e he => heq ▸ hhd e he, htl⟩
      · next hlt hne =>
        refine List.pairwise_cons.mpr ⟨fun e he => ?_, ih htl⟩
        rcases mem_put he with rfl | he
        · exact lt_of_not_lt_of_ne hlt hne
        · exact hhd e he

/-- The map with the value of one name set. -/
def insert (m : KeyMap α) (k : String) (v : α) : KeyMap α := ⟨put k v m.entries, put_sorted m.sorted⟩

/-- The map without a key. -/
def erase (m : KeyMap α) (k : String) : KeyMap α :=
  ⟨m.entries.filter (·.1 ≠ k), m.sorted.filter _⟩

/-- The map with those of its entries that a test lets pass. -/
def filter (p : String → α → Bool) (m : KeyMap α) : KeyMap α :=
  ⟨m.entries.filter fun e => p e.1 e.2, m.sorted.filter _⟩

/-- The map with a function applied to all its values. -/
def map (f : α → β) (m : KeyMap α) : KeyMap β :=
  ⟨m.entries.map fun e => (e.1, f e.2), m.sorted.map _ fun _ _ h => h⟩

/-- The map of a list of entries; of two entries for one name the later one counts. -/
def ofList (l : List (String × α)) : KeyMap α := l.foldl (fun m e => m.insert e.1 e.2) empty

/-- The entries in the order of their keys. -/
def toList (m : KeyMap α) : List (String × α) := m.entries

/-- The keys in their order. -/
def keys (m : KeyMap α) : List String := m.entries.map (·.1)

/-- The values in the order of their names. -/
def values (m : KeyMap α) : List α := m.entries.map (·.2)

/-- The number of keys. -/
def size (m : KeyMap α) : Nat := m.entries.length

/-- Whether there are no keys. -/
def isEmpty (m : KeyMap α) : Bool := m.entries.isEmpty

/-! ## The view -/

@[simp] theorem get?_empty (k : String) : (empty : KeyMap α).get? k = none := rfl

theorem lookup_put (k k' : String) (v : α) (l : List (String × α)) :
    lookup k' (put k v l) = if k' = k then some v else lookup k' l := by
  induction l with
  | nil => simp [put, lookup]
  | cons hd tl ih =>
    obtain ⟨k₀, v₀⟩ := hd
    unfold put
    split
    · simp [lookup]
    · split
      · next heq =>
        subst heq
        by_cases h : k' = k <;> simp [lookup, h]
      · next hne =>
        by_cases h : k' = k₀
        · subst h
          simp [lookup, Ne.symm hne]
        · simp [lookup, h, ih]

@[simp] theorem get?_insert (m : KeyMap α) (k k' : String) (v : α) :
    (m.insert k v).get? k' = if k' = k then some v else m.get? k' :=
  lookup_put k k' v m.entries

theorem lookup_filter_ne (k k' : String) (l : List (String × α)) :
    lookup k' (l.filter (·.1 ≠ k)) = if k' = k then none else lookup k' l := by
  induction l with
  | nil => simp [lookup]
  | cons hd tl ih =>
    by_cases h : hd.1 = k
    · rw [List.filter_cons_of_neg (by simpa using h), ih]
      by_cases h' : k' = k
      · simp [h']
      · have : k' ≠ hd.1 := fun e => h' (e.trans h)
        simp [lookup, h', this]
    · rw [List.filter_cons_of_pos (by simpa using h)]
      by_cases h' : k' = hd.1
      · have : k' ≠ k := fun e => h (h'.symm.trans e)
        simp [lookup, h', h]
      · rw [lookup, if_neg h', lookup, if_neg h', ih]

@[simp] theorem get?_erase (m : KeyMap α) (k k' : String) :
    (m.erase k).get? k' = if k' = k then none else m.get? k' :=
  lookup_filter_ne k k' m.entries

theorem lookup_eq_none_of_lt {k : String} {l : List (String × α)} (h : ∀ e ∈ l, k < e.1) :
    lookup k l = none := by
  induction l with
  | nil => rfl
  | cons hd tl ih =>
    have hk : k ≠ hd.1 := fun e => String.lt_irrefl _ (e ▸ h hd (.head _))
    simp [lookup, hk, ih fun e he => h e (.tail _ he)]

theorem mem_entries_iff {m : KeyMap α} {k : String} {v : α} : (k, v) ∈ m.entries ↔ m.get? k = some v := by
  obtain ⟨l, hl⟩ := m
  show (k, v) ∈ l ↔ lookup k l = some v
  induction l with
  | nil => simp [lookup]
  | cons hd tl ih =>
    obtain ⟨hhd, htl⟩ := List.pairwise_cons.mp hl
    by_cases h : k = hd.1
    · subst h
      constructor
      · intro hm
        rcases List.mem_cons.mp hm with he | hm
        · simpa [lookup] using (congrArg Prod.snd he).symm
        · exact absurd (hhd _ hm) (String.lt_irrefl _)
      · intro hm
        simp [lookup] at hm
        subst hm
        exact .head _
    · rw [lookup, if_neg h, List.mem_cons, ih htl]
      exact ⟨fun h' => h'.resolve_left fun e => h (e ▸ rfl), .inr⟩

/-- A map is determined by its view. -/
theorem ext_get? {a b : KeyMap α} (h : ∀ k, a.get? k = b.get? k) : a = b := by
  apply eq_of_entries
  obtain ⟨l, hl⟩ := a
  obtain ⟨r, hr⟩ := b
  replace h : ∀ k, lookup k l = lookup k r := h
  show l = r
  induction l generalizing r with
  | nil =>
    cases r with
    | nil => rfl
    | cons hd tl => simpa [lookup] using h hd.1
  | cons hd tl ih =>
    cases r with
    | nil => simpa [lookup] using h hd.1
    | cons hd' tl' =>
      obtain ⟨hhd, htl⟩ := List.pairwise_cons.mp hl
      obtain ⟨hhd', htl'⟩ := List.pairwise_cons.mp hr
      have hk : hd.1 = hd'.1 := by
        by_cases h1 : hd.1 < hd'.1
        · have e := h hd.1
          rw [lookup_eq_none_of_lt (l := hd' :: tl')] at e
          · simp [lookup] at e
          · intro e he
            rcases List.mem_cons.mp he with rfl | he
            · exact h1
            · exact String.lt_trans h1 (hhd' e he)
        · by_cases h2 : hd'.1 < hd.1
          · have e := h hd'.1
            rw [lookup_eq_none_of_lt (l := hd :: tl)] at e
            · simp [lookup] at e
            · intro e he
              rcases List.mem_cons.mp he with rfl | he
              · exact h2
              · exact String.lt_trans h2 (hhd e he)
          · exact String.le_antisymm (String.not_lt.mp h2) (String.not_lt.mp h1)
      have hv : hd = hd' := by
        have e := h hd.1
        simp only [lookup, hk, if_true] at e
        exact Prod.ext hk (Option.some.inj e)
      subst hv
      congr 1
      refine ih htl tl' htl' fun k => ?_
      by_cases hk' : k = hd.1
      · rw [hk', lookup_eq_none_of_lt hhd, lookup_eq_none_of_lt hhd']
      · simpa [lookup, hk'] using h k

end KeyMap
end Intendant

import Intendant.State.Dominance
import Mathlib.Algebra.Ring.Int.Defs

/-! # Footprints and overflow

Resources are summed up in checked 64-bit arithmetic, in the order of their names. So a footprint is the sum of the
resources where the sums of the first ones fit, up to all of them, and is missing where one of them does not
(`footprint?_eq_some_iff`, `footprint?_eq_none_iff`). The comparison of footprints compares the sums wherever both are
there, and has no answer elsewhere (`lessResources?_exact_iff`). -/

namespace Intendant.State

/-- The sum of the resources as an integer. -/
def total (s : State) : Int := (s.resources.values.map Int64.toInt).sum

/-- What fits a signed number of 64 bits. -/
def Fits (n : Int) : Prop := -9223372036854775808 ≤ n ∧ n ≤ 9223372036854775807

/-- The sum of the first few resources, or of all of them, does not fit. -/
def Overflows (s : State) : Prop := ∃ vs, vs <+: s.resources.values ∧ ¬Fits (vs.map Int64.toInt).sum

variable {s t u : State} {a b c : Int64} {n : Int} {vs : List Int64}

/-! ### Sums -/

theorem fits_toInt (a : Int64) : Fits a.toInt := by
  have hlo := a.le_toInt
  have hhi := a.toInt_lt
  constructor <;> omega

theorem toInt_ofInt_of_fits (h : Fits n) : (Int64.ofInt n).toInt = n := by
  obtain ⟨hlo, hhi⟩ := h
  exact Int64.toInt_ofInt_of_le (by omega) (by omega)

theorem sum?_eq_some_iff : sum? a b = some c ↔ c.toInt = a.toInt + b.toInt := by
  unfold sum?
  dsimp only
  split
  · rename_i hfits
    rw [Option.some.injEq]
    constructor
    · rintro rfl
      exact toInt_ofInt_of_fits hfits
    · intro hc
      rw [← hc, Int64.ofInt_toInt]
  · rename_i hnot
    refine iff_of_false nofun fun hc => hnot ?_
    rw [← hc]
    exact fits_toInt c

/-- Two resources have a sum if it fits. -/
theorem exists_sum? (h : Fits (a.toInt + b.toInt)) : ∃ c, sum? a b = some c :=
  ⟨_, sum?_eq_some_iff.mpr (toInt_ofInt_of_fits h)⟩

theorem foldlM_sum?_eq_some_iff (a : Int64) (vs : List Int64) :
    vs.foldlM sum? a = some c ↔ c.toInt = a.toInt + (vs.map Int64.toInt).sum ∧
      ∀ us, us <+: vs → Fits (a.toInt + (us.map Int64.toInt).sum) := by
  induction vs generalizing a with
  | nil =>
    have hfits : ∀ us : List Int64, us <+: [] → Fits (a.toInt + (us.map Int64.toInt).sum) := by
      intro us hus
      rw [List.prefix_nil.mp hus, List.map_nil, List.sum_nil, Int.add_zero]
      exact fits_toInt a
    rw [List.map_nil, List.sum_nil, Int.add_zero, Int64.toInt_inj]
    exact ⟨fun h => ⟨(Option.some.inj h).symm, hfits⟩, fun h => congrArg some h.1.symm⟩
  | cons v vs ih =>
    rw [List.foldlM_cons, Option.bind_eq_bind, Option.bind_eq_some_iff, List.map_cons, List.sum_cons]
    constructor
    · rintro ⟨b, hb, hc⟩
      obtain ⟨hsum, hfits⟩ := (ih b).mp hc
      rw [sum?_eq_some_iff] at hb
      refine ⟨by omega, fun us hus => ?_⟩
      rcases List.prefix_cons_iff.mp hus with rfl | ⟨us, rfl, hmore⟩
      · rw [List.map_nil, List.sum_nil, Int.add_zero]
        exact fits_toInt a
      · rw [List.map_cons, List.sum_cons, ← Int.add_assoc, ← hb]
        exact hfits us hmore
    · rintro ⟨hsum, hfits⟩
      -- The first addition gives a sum, as the one of the first resource alone fits.
      have hfirst : Fits (a.toInt + v.toInt) := by
        simpa using hfits [v] (List.prefix_cons_iff.mpr (.inr ⟨[], rfl, List.nil_prefix⟩))
      obtain ⟨b, hb⟩ := exists_sum? hfirst
      have htoInt := sum?_eq_some_iff.mp hb
      refine ⟨b, hb, (ih b).mpr ⟨by omega, fun us hus => ?_⟩⟩
      have hmore := hfits (v :: us) (List.prefix_cons_iff.mpr (.inr ⟨us, rfl, hus⟩))
      rwa [List.map_cons, List.sum_cons, ← Int.add_assoc, ← htoInt] at hmore

/-! ### Footprints -/

theorem footprint?_eq_some_iff : s.footprint? = some c ↔ ¬s.Overflows ∧ c.toInt = s.total := by
  simp only [footprint?, foldlM_sum?_eq_some_iff, Int64.toInt_zero, Int.zero_add, total]
  rw [and_comm]
  refine and_congr_left fun _ => ⟨fun hfits hover => ?_, fun hnot us hus => ?_⟩
  · obtain ⟨us, hus, hover⟩ := hover
    exact hover (hfits us hus)
  · exact Classical.byContradiction fun hover => hnot ⟨us, hus, hover⟩

/-- Without an overflow the sum is a footprint: all resources are the longest of their beginnings. -/
theorem exists_footprint? (h : ¬s.Overflows) : ∃ c, s.footprint? = some c ∧ c.toInt = s.total := by
  have hfits : Fits s.total := Classical.byContradiction fun hover => h ⟨_, List.prefix_refl _, hover⟩
  have hvalue := toInt_ofInt_of_fits hfits
  exact ⟨_, footprint?_eq_some_iff.mpr ⟨h, hvalue⟩, hvalue⟩

theorem footprint?_eq_none_iff : s.footprint? = none ↔ s.Overflows := by
  constructor
  · intro hnone
    refine Classical.byContradiction fun h => ?_
    obtain ⟨c, hc, -⟩ := exists_footprint? h
    cases hnone.symm.trans hc
  · intro hover
    cases h : s.footprint? with
    | none => rfl
    | some c => exact absurd hover (footprint?_eq_some_iff.mp h).1

/-! ### The comparison -/

theorem lessResources?_eq_some_iff {less : Bool} :
    s.lessResources? t = some less ↔ ¬s.Overflows ∧ ¬t.Overflows ∧ less = decide (s.total < t.total) := by
  simp only [lessResources?, Option.bind_eq_bind, Option.bind_eq_some_iff, Option.pure_def, Option.some.injEq,
    footprint?_eq_some_iff]
  constructor
  · rintro ⟨a, ⟨hs, ha⟩, b, ⟨ht, hb⟩, rfl⟩
    exact ⟨hs, ht, by rw [← ha, ← hb, decide_eq_decide, Int64.lt_iff_toInt_lt]⟩
  · rintro ⟨hs, ht, rfl⟩
    obtain ⟨a, -, ha⟩ := exists_footprint? hs
    obtain ⟨b, -, hb⟩ := exists_footprint? ht
    exact ⟨a, ⟨hs, ha⟩, b, ⟨ht, hb⟩, by rw [← ha, ← hb, decide_eq_decide, Int64.lt_iff_toInt_lt]⟩

theorem lessResources?_eq_none_iff : s.lessResources? t = none ↔ s.Overflows ∨ t.Overflows := by
  rw [← footprint?_eq_none_iff, ← footprint?_eq_none_iff, lessResources?]
  cases s.footprint? <;> cases t.footprint? <;> simp

theorem lessResources?_eq_true_iff :
    s.lessResources? t = some true ↔ ¬s.Overflows ∧ ¬t.Overflows ∧ s.total < t.total := by
  rw [lessResources?_eq_some_iff, eq_comm, decide_eq_true_eq]

/-- The comparison of footprints has an answer exactly if neither of the two sums overflows on the way, and then it is
    the comparison of the sums. So it is irreflexive, asymmetric and transitive, and where it has an answer this depends
    on the sums alone. -/
theorem lessResources?_exact_iff (s t : State) :
    (∀ less, s.lessResources? t = some less ↔ ¬s.Overflows ∧ ¬t.Overflows ∧ less = decide (s.total < t.total)) ∧
    (s.lessResources? t = none ↔ s.Overflows ∨ t.Overflows) ∧
    s.lessResources? s ≠ some true ∧
    (s.lessResources? t = some true → t.lessResources? s = some false) ∧
    (∀ u : State, s.lessResources? t = some true → t.lessResources? u = some true → s.lessResources? u = some true) ∧
    (∀ (s' t' : State) (less less' : Bool), s.total = s'.total → t.total = t'.total →
      s.lessResources? t = some less → s'.lessResources? t' = some less' → less = less') := by
  refine ⟨fun _ => lessResources?_eq_some_iff, lessResources?_eq_none_iff, fun h => ?_, fun h => ?_,
    fun u h h' => ?_, fun s' t' less less' hs ht h h' => ?_⟩
  · obtain ⟨-, -, hlt⟩ := lessResources?_eq_true_iff.mp h
    omega
  · obtain ⟨hs, ht, hlt⟩ := lessResources?_eq_true_iff.mp h
    exact lessResources?_eq_some_iff.mpr ⟨ht, hs, (decide_eq_false (by omega)).symm⟩
  · obtain ⟨hs, -, hlt⟩ := lessResources?_eq_true_iff.mp h
    obtain ⟨-, hu, hlt'⟩ := lessResources?_eq_true_iff.mp h'
    exact lessResources?_eq_true_iff.mpr ⟨hs, hu, by omega⟩
  · rw [(lessResources?_eq_some_iff.mp h).2.2, (lessResources?_eq_some_iff.mp h').2.2, hs, ht]

/-- A state with the largest amount of one resource, and one of another. -/
def brimming : State := { resources := (KeyMap.empty.insert "a" 9223372036854775807).insert "b" 1 }

/-- It has more than a state without resources, and yet the two cannot be compared, neither way. -/
theorem lessResources?_overflows :
    ({} : State).total < brimming.total ∧ brimming.lessResources? {} = none ∧ ({} : State).lessResources? brimming = none := by
  decide +kernel

end Intendant.State

import Intendant.Proofs.Registry.Basic

/-! # Counters of failed checks

What a health round makes of one plugin: its counter depends on the checkup of its own client and on no other, and it
goes exactly if the failures in a row have become too many. -/

namespace Intendant

/-- The number of failed checks after the last passed one. The earliest check comes first. -/
def failedInARow (checks : List Bool) : Nat := (checks.reverse.takeWhile (!·)).length

theorem failedInARow_concat (checks : List Bool) (ready : Bool) :
    failedInARow (checks ++ [ready]) = if ready then 0 else failedInARow checks + 1 := by
  cases ready <;> simp [failedInARow]

namespace Registry
variable {r : Registry} {name : String} {p : String × Registered} {c : Checkup} {cs : List Checkup}

/-- Whether a checkup is about a registered plugin. -/
def About (p : String × Registered) (c : Checkup) : Prop := c.name = p.1 ∧ c.client = p.2.client

instance : Decidable (About p c) := inferInstanceAs (Decidable (_ ∧ _))

theorem Sound.concerns_iff (h : r.Sound) (hp : p ∈ r.plugins) (hname : c.name = p.1) :
    r.concerns c = true ↔ c.client = p.2.client := by
  have hfind : r.find? c.name = some p.2 := h.find?_iff.mpr (hname ▸ hp)
  simp [concerns, hfind, eq_comm]

theorem get?_count (r : Registry) (acc : KeyMap Nat × List String) (c : Checkup) (name : String) :
    (r.count acc c).1.get? name =
      if r.concerns c = true ∧ c.name = name then some (if c.ready then 0 else (acc.1.get? name).getD 0 + 1)
      else acc.1.get? name := by
  rcases count_cases r acc c with ⟨hconcerns, heq⟩ | ⟨hconcerns, hready, heq⟩ | ⟨hconcerns, hready, heq⟩ <;> rw [heq]
  · simp [hconcerns]
  · simp [hconcerns, hready, eq_comm]
  · by_cases hname : c.name = name
    · simp [hconcerns, hready, hname]
    · simp [hname, Ne.symm hname]

/-- Checkups that do not concern a name leave its counter alone. -/
theorem get?_count_foldl (hcs : ∀ c ∈ cs, r.concerns c = true → c.name ≠ name) (acc : KeyMap Nat × List String) :
    (cs.foldl r.count acc).1.get? name = acc.1.get? name := by
  induction cs generalizing acc with
  | nil => rfl
  | cons c cs ih =>
    have hc : ¬(r.concerns c = true ∧ c.name = name) := fun hc => hcs c List.mem_cons_self hc.1 hc.2
    rw [List.foldl_cons, ih (fun d hd => hcs d (List.mem_cons_of_mem _ hd)), get?_count, if_neg hc]

/-- The one checkup of a name sets its counter. -/
theorem get?_count_foldl_of_mem (hcs : (cs.map (·.name)).Nodup) (hc : c ∈ cs) (hconcerns : r.concerns c = true)
    (acc : KeyMap Nat × List String) :
    (cs.foldl r.count acc).1.get? c.name = some (if c.ready then 0 else (acc.1.get? c.name).getD 0 + 1) := by
  obtain ⟨before, after, rfl⟩ := List.append_of_mem hc
  rw [List.map_append, List.map_cons, List.nodup_middle, List.nodup_cons, List.mem_append, not_or] at hcs
  obtain ⟨⟨hbefore, hafter⟩, -⟩ := hcs
  have hfirst : (before.foldl r.count acc).1.get? c.name = acc.1.get? c.name :=
    get?_count_foldl (fun d hd _ heq => hbefore (List.mem_map.mpr ⟨d, hd, heq⟩)) acc
  rw [List.foldl_append, List.foldl_cons, get?_count_foldl (fun d hd _ heq => hafter (List.mem_map.mpr ⟨d, hd, heq⟩)),
    get?_count, if_pos ⟨hconcerns, rfl⟩, hfirst]

/-- A plugin that is kept by a health round keeps the counter that the checkups gave it. -/
theorem Sound.get?_failures_takeCheckups (h : r.Sound) (hcs : (cs.map (·.name)).Nodup)
    (hkept : p ∈ (r.takeCheckups cs).2.plugins) :
    (r.takeCheckups cs).2.failures.get? p.1 = (cs.foldl r.count (r.failures, [])).1.get? p.1 := by
  obtain ⟨-, hfailed⟩ := count_foldl hcs (r.failures, []) h.counted fun _ _ => rfl
  have hstays : ¬r.Evicts cs p := by
    rw [(h.takeCheckups hcs).plugins] at hkept
    exact of_decide_eq_true (List.mem_filter.mp hkept).2
  have hnot : p.1 ∉ (cs.foldl r.count (r.failures, [])).2 := fun hmem =>
    hstays (((hfailed p.1).mp hmem).resolve_left List.not_mem_nil)
  obtain ⟨-, hfailures, -⟩ := foldl_evict { r with failures := (cs.foldl r.count (r.failures, [])).1 }
    (cs.foldl r.count (r.failures, [])).2
  exact (hfailures p.1).trans (if_neg hnot)

/-- A health round without a checkup of a plugin leaves the plugin alone. -/
theorem Sound.takeCheckups_of_unchecked (h : r.Sound) (hcs : (cs.map (·.name)).Nodup) (hp : p ∈ r.plugins)
    (hnone : ∀ c ∈ cs, ¬About p c) :
    p ∈ (r.takeCheckups cs).2.plugins ∧ (r.takeCheckups cs).2.failures.get? p.1 = r.failures.get? p.1 := by
  have hother : ∀ c ∈ cs, r.concerns c = true → c.name ≠ p.1 := fun c hc hconcerns hname =>
    hnone c hc ⟨hname, (h.concerns_iff hp hname).mp hconcerns⟩
  have hkept : p ∈ (r.takeCheckups cs).2.plugins := by
    rw [(h.takeCheckups hcs).plugins, List.mem_filter, decide_eq_true_eq]
    refine ⟨hp, ?_⟩
    rintro ⟨c, hc, ⟨hconcerns, -⟩, hname⟩
    exact hother c hc hconcerns hname
  exact ⟨hkept, (h.get?_failures_takeCheckups hcs hkept).trans (get?_count_foldl hother _)⟩

/-- A health round with a checkup of a plugin that has failed a number of checks in a row. -/
theorem Sound.takeCheckups_of_checked (h : r.Sound) (hcs : (cs.map (·.name)).Nodup) (hp : p ∈ r.plugins) (hc : c ∈ cs)
    (habout : About p c) {checks : List Bool} (hcounter : r.failures.get? p.1 = some (failedInARow checks)) :
    (p ∈ (r.takeCheckups cs).2.plugins ↔ failedInARow (checks ++ [c.ready]) < max 1 r.retries) ∧
    (p ∈ (r.takeCheckups cs).2.plugins →
      (r.takeCheckups cs).2.failures.get? p.1 = some (failedInARow (checks ++ [c.ready]))) := by
  have hconcerns : r.concerns c = true := (h.concerns_iff hp habout.1).mpr habout.2
  have hold : (r.failures.get? c.name).getD 0 = failedInARow checks := by rw [habout.1, hcounter, Option.getD_some]
  have hevicts : r.Evicts cs p ↔ r.Fails c := by
    constructor
    · rintro ⟨d, hd, hfails, hname⟩
      exact List.inj_on_of_nodup_map hcs hd hc (hname.trans habout.1.symm) ▸ hfails
    · exact fun hfails => ⟨c, hc, hfails, habout.1⟩
  constructor
  · rw [(h.takeCheckups hcs).plugins, List.mem_filter, decide_eq_true_eq, hevicts, failedInARow_concat, and_iff_right hp,
      Fails, hold, and_iff_right hconcerns]
    cases c.ready <;> simp
  · intro hkept
    rw [h.get?_failures_takeCheckups hcs hkept, ← habout.1, get?_count_foldl_of_mem hcs hc hconcerns, hold,
      failedInARow_concat]

end Registry
end Intendant

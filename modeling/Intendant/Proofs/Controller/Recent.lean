import Intendant.Proofs.Controller.Basic
import Mathlib.Data.Set.Card

/-! # What recent names remember

Names are put, forgotten ones are purged, and time passes. Whatever the order, a name is remembered exactly if it was put
and its last put is no longer ago than the lifetime (`remembers_exactly`). A purge drops what is forgotten already, so
nobody can tell from later answers whether one went off, not even the purge in the background (`contains_advance`). -/

namespace Intendant

namespace Recent

/-- What happens to a set of recent names. -/
inductive Event where
  | put (name : String)
  | purge
  | wait (time : Nat)
deriving DecidableEq

/-- The time that an event takes. -/
def Event.duration : Event → Nat
  | wait time => time
  | _ => 0

/-- The time that passes in events. -/
def elapsed (events : List Event) : Nat := (events.map Event.duration).sum

/-- The names and the time of the clock after an event. -/
def happen : Recent × Nat → Event → Recent × Nat
  | (r, now), .put name => (r.put now name, now)
  | (r, now), .purge => (r.purge now, now)
  | (r, now), .wait time => (r, now + time)

/-- The names and the time of the clock after some events. There are no names in the beginning. -/
def history (lifetime start : Nat) (events : List Event) : Recent × Nat :=
  events.foldl happen ({ lifetime := lifetime }, start)

/-- Whether a name is remembered after some events. -/
def remembers (lifetime start : Nat) (events : List Event) (k : String) : Bool :=
  (history lifetime start events).1.contains (history lifetime start events).2 k

variable {r r' : Recent} {lifetime start now later : Nat} {k : String} {events before rest : List Event} {e : Event}

/-! ### Answers to come -/

/-- What a purge drops is forgotten then, and at any later time. -/
theorem contains_purge (h : now ≤ later) : (r.purge now).contains later k = r.contains later k := by
  rw [Bool.eq_iff_iff, contains_iff, contains_iff]
  constructor
  · rintro ⟨putAt, hput, hfresh⟩
    exact ⟨putAt, (get?_purge.mp hput).1, hfresh⟩
  · rintro ⟨putAt, hput, hfresh⟩
    exact ⟨putAt, get?_purge.mpr ⟨hput, (Nat.sub_le_sub_right h putAt).trans hfresh⟩, hfresh⟩

/-- After a put only the time since then counts. -/
theorem contains_happen_put (s : Recent × Nat) (k : String) :
    (happen s (.put k)).1.contains later k = true ↔ later - s.2 ≤ s.1.lifetime := by
  change (s.1.put s.2 k).contains later k = true ↔ _
  rw [contains_iff, get?_put, if_pos rfl]
  exact ⟨fun ⟨putAt, hput, hfresh⟩ => Option.some.inj hput ▸ hfresh, fun hfresh => ⟨s.2, rfl, hfresh⟩⟩

/-- No other event changes what will be answered about a name. -/
theorem contains_happen {s : Recent × Nat} (h : s.2 ≤ later) (hput : e ≠ .put k) :
    (happen s e).1.contains later k = s.1.contains later k := by
  cases e with
  | put name =>
    have hne : k ≠ name := fun heq => hput (heq ▸ rfl)
    change (s.1.put s.2 name).contains later k = _
    rw [Bool.eq_iff_iff, contains_iff, contains_iff, get?_put, if_neg hne]
    rfl
  | purge => exact contains_purge h
  | wait time => rfl

theorem happen_lifetime (s : Recent × Nat) (e : Event) : (happen s e).1.lifetime = s.1.lifetime := by
  cases e <;> rfl

theorem happen_clock (s : Recent × Nat) (e : Event) : (happen s e).2 = s.2 + e.duration := by
  cases e <;> rfl

theorem elapsed_append (before rest : List Event) : elapsed (before ++ rest) = elapsed before + elapsed rest := by
  rw [elapsed, List.map_append, List.sum_append]
  rfl

theorem history_append (lifetime start : Nat) (before rest : List Event) :
    history lifetime start (before ++ rest) = rest.foldl happen (history lifetime start before) := List.foldl_append ..

theorem history_concat (lifetime start : Nat) (events : List Event) (e : Event) :
    history lifetime start (events ++ [e]) = happen (history lifetime start events) e := List.foldl_concat ..

theorem history_lifetime (lifetime start : Nat) (events : List Event) :
    (history lifetime start events).1.lifetime = lifetime :=
  List.foldlRecOn (motive := fun s : Recent × Nat => s.1.lifetime = lifetime) events happen rfl
    fun s hs e _ => (happen_lifetime s e).trans hs

theorem history_clock (lifetime start : Nat) (events : List Event) :
    (history lifetime start events).2 = start + elapsed events := by
  induction events using List.reverseRecOn with
  | nil => rfl
  | append_singleton events e ih =>
    rw [history_concat, happen_clock, ih, elapsed_append, Nat.add_assoc]
    rfl

/-! ### Last puts -/

/-- The last put of a name came after some events, with the rest of them behind it. -/
def LastPut (k : String) (events before rest : List Event) : Prop :=
  events = before ++ .put k :: rest ∧ .put k ∉ rest

theorem lastPut_concat : LastPut k (events ++ [e]) before rest ↔
    e = .put k ∧ before = events ∧ rest = [] ∨ e ≠ .put k ∧ ∃ rest', rest = rest' ++ [e] ∧ LastPut k events before rest' := by
  constructor
  · rintro ⟨hevents, hlast⟩
    rcases List.eq_nil_or_concat rest with rfl | ⟨rest', e', rfl⟩
    · obtain ⟨rfl, he⟩ := List.append_inj' hevents rfl
      exact .inl ⟨List.singleton_inj.mp he, rfl, rfl⟩
    · rw [List.concat_eq_append, ← List.cons_append, ← List.append_assoc] at hevents
      obtain ⟨rfl, he⟩ := List.append_inj' hevents rfl
      obtain rfl := List.singleton_inj.mp he
      rw [List.concat_eq_append, List.mem_append, not_or, List.mem_singleton] at hlast
      exact .inr ⟨Ne.symm hlast.2, rest', List.concat_eq_append, rfl, hlast.1⟩
  · rintro (⟨rfl, rfl, rfl⟩ | ⟨hne, rest', rfl, rfl, hlast⟩)
    · exact ⟨rfl, List.not_mem_nil⟩
    · refine ⟨by rw [List.append_assoc, List.cons_append], ?_⟩
      rw [List.mem_append, not_or, List.mem_singleton]
      exact ⟨hlast, Ne.symm hne⟩

/-- At any time from now on a name is remembered exactly if its last put is not too long ago then. The time is left open
    so that a purge, which looks at the clock of its own moment, can be passed. -/
theorem contains_history (h : (history lifetime start events).2 ≤ later) :
    (history lifetime start events).1.contains later k = true ↔
      ∃ before rest, LastPut k events before rest ∧ later - (start + elapsed before) ≤ lifetime := by
  -- By the last event: a put of the name settles the answer, all other events leave the last put where it is.
  induction events using List.reverseRecOn with
  | nil =>
    constructor
    · intro hcontains
      cases hcontains
    · rintro ⟨before, rest, ⟨hevents, -⟩, -⟩
      exact absurd hevents (by simp)
  | append_singleton events e ih =>
    rw [history_concat] at h ⊢
    have hearlier : (history lifetime start events).2 ≤ later := by
      rw [happen_clock] at h
      exact (Nat.le_add_right _ _).trans h
    have hclock := history_clock lifetime start events
    have hlifetime := history_lifetime lifetime start events
    by_cases hput : e = .put k
    · subst hput
      rw [contains_happen_put, hlifetime, hclock]
      constructor
      · exact fun hfresh => ⟨events, [], lastPut_concat.mpr (.inl ⟨rfl, rfl, rfl⟩), hfresh⟩
      · rintro ⟨before, rest, hlast, hfresh⟩
        rcases lastPut_concat.mp hlast with ⟨-, rfl, -⟩ | ⟨hne, -⟩
        · exact hfresh
        · exact absurd rfl hne
    · rw [contains_happen hearlier hput, ih hearlier]
      constructor
      · rintro ⟨before, rest, hlast, hfresh⟩
        exact ⟨before, rest ++ [e], lastPut_concat.mpr (.inr ⟨hput, rest, rfl, hlast⟩), hfresh⟩
      · rintro ⟨before, rest, hlast, hfresh⟩
        rcases lastPut_concat.mp hlast with ⟨heq, -⟩ | ⟨-, rest', -, hlast⟩
        · exact absurd heq hput
        · exact ⟨before, rest', hlast, hfresh⟩

theorem remembers_iff : remembers lifetime start events k = true ↔
    ∃ before rest, LastPut k events before rest ∧ elapsed rest ≤ lifetime := by
  rw [remembers, contains_history le_rfl, history_clock]
  refine exists_congr fun before => exists_congr fun rest => and_congr_right fun hlast => ?_
  have helapsed : elapsed events = elapsed before + elapsed rest := by
    rw [hlast.1, elapsed_append]
    exact congrArg (elapsed before + ·) (Nat.zero_add _)
  omega

/-! ### Purges -/

/-- Two sets of names answer alike from a time on. -/
def Agree (s t : Recent × Nat) : Prop :=
  s.2 = t.2 ∧ s.1.lifetime = t.1.lifetime ∧ ∀ later k, s.2 ≤ later → s.1.contains later k = t.1.contains later k

theorem Agree.step {s t : Recent × Nat} (h : Agree s t) (e : Event) : Agree (happen s e) (happen t e) := by
  obtain ⟨hclock, hlifetime, hanswers⟩ := h
  refine ⟨by rw [happen_clock, happen_clock, hclock], by rw [happen_lifetime, happen_lifetime, hlifetime], ?_⟩
  intro later k hlater
  have hearlier : s.2 ≤ later := (Nat.le_add_right _ _).trans (happen_clock s e ▸ hlater)
  by_cases hput : e = .put k
  · subst hput
    rw [Bool.eq_iff_iff, contains_happen_put, contains_happen_put, hclock, hlifetime]
  · rw [contains_happen hearlier hput, contains_happen (hclock ▸ hearlier) hput]
    exact hanswers later k hearlier

theorem Agree.steps {s t : Recent × Nat} (h : Agree s t) (events : List Event) :
    Agree (events.foldl happen s) (events.foldl happen t) := by
  induction events generalizing s t with
  | nil => exact h
  | cons e events ih => exact ih (h.step e)

theorem remembers_purge (before rest : List Event) (k : String) :
    remembers lifetime start (before ++ .purge :: rest) k = remembers lifetime start (before ++ rest) k := by
  have hpurge : Agree (happen (history lifetime start before) .purge) (history lifetime start before) :=
    ⟨rfl, rfl, fun later k hlater => contains_purge hlater⟩
  obtain ⟨hclock, -, hanswers⟩ := hpurge.steps rest
  unfold remembers
  rw [history_append, history_append, List.foldl_cons, hanswers _ k le_rfl, hclock]

/-! ### Room -/

theorem mem_keys_purge : k ∈ (r.purge now).entries.keys ↔ r.contains now k = true := by
  rw [KeyMap.mem_keys, Option.isSome_iff_exists, contains_iff]
  exact exists_congr fun _ => get?_purge

theorem size_purge_le (r : Recent) (now : Nat) : (r.purge now).size ≤ r.size := List.length_filter_le _ _

/-- The names that are remembered are those that a purge would keep. -/
theorem encard_contains (r : Recent) (now : Nat) :
    {k | r.contains now k = true}.encard = ((r.purge now).size : ℕ∞) := by
  have hkeys : {k | r.contains now k = true} = ((r.purge now).entries.keys.toFinset : Set String) := by
    ext k
    rw [List.coe_toFinset]
    exact mem_keys_purge.symm
  rw [hkeys, Set.encard_coe_eq_coe_finsetCard, List.toFinset_card_of_nodup (KeyMap.keys_nodup _), KeyMap.length_keys]
  rfl

/-- Names are remembered exactly as long as their last put is no longer ago than the lifetime. So a purge, wherever it
    comes, changes no answer. The names that are remembered have room, and after a purge they have all of it. -/
theorem remembers_exactly (lifetime start : Nat) :
    (∀ events k, remembers lifetime start events k = true ↔ ∃ before rest,
      events = before ++ .put k :: rest ∧ .put k ∉ rest ∧ elapsed rest ≤ lifetime) ∧
    (∀ before rest k, remembers lifetime start (before ++ .purge :: rest) k =
      remembers lifetime start (before ++ rest) k) ∧
    (∀ events, {k | remembers lifetime start (events ++ [.purge]) k = true}.encard =
      ((history lifetime start (events ++ [.purge])).1.size : ℕ∞)) ∧
    (∀ events, {k | remembers lifetime start events k = true}.encard ≤
      ((history lifetime start events).1.size : ℕ∞)) := by
  refine ⟨fun events k => ?_, remembers_purge, fun events => ?_, fun events => ?_⟩
  · simp only [remembers_iff, LastPut, and_assoc]
  · have hsame : {k | remembers lifetime start (events ++ [.purge]) k = true} =
        {k | (history lifetime start events).1.contains (history lifetime start events).2 k = true} := by
      ext k
      have hpurge : remembers lifetime start (events ++ [.purge]) k = remembers lifetime start (events ++ []) k :=
        remembers_purge events [] k
      rw [List.append_nil] at hpurge
      rw [Set.mem_ofPred_eq, hpurge]
      rfl
    rw [hsame, encard_contains, history_concat]
    rfl
  · refine (encard_contains _ _).trans_le ?_
    exact_mod_cast size_purge_le _ _

end Recent

namespace RecentKeeper
variable {k : RecentKeeper} {target later : Nat} {name : String}

theorem contains_advanceTo (h : target ≤ later) (fuel : Nat) (k : RecentKeeper) :
    (k.advanceTo target fuel).recent.contains later name = k.recent.contains later name := by
  induction fuel generalizing k with
  | zero => rfl
  | succ fuel ih =>
    unfold advanceTo
    split
    · rfl
    · rename_i t ht
      split
      · rfl
      · rename_i hdue
        exact (ih _).trans (Recent.contains_purge ((Nat.not_lt.mp hdue).trans h))

/-- A purge in the background goes off as time passes, and the answers are those without it. -/
theorem contains_advance (k : RecentKeeper) (milliseconds : Nat) (name : String) :
    (k.advance milliseconds).recent.contains (k.now + milliseconds) name =
      k.recent.contains (k.now + milliseconds) name :=
  contains_advanceTo le_rfl _ k

end RecentKeeper
end Intendant

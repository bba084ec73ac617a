import Intendant.Proofs.Double.Value
import Intendant.Proofs.Graph.OpenSet

/-! # Open sets as queues

An open set serves as a line does in which all wait in the order of coming and the first one of those with the least
priority is taken (`Line.Served`): its entries are the line in stable order (`StableOrder`), so pops until it is empty
give the line in this order (`serve_pops`). The answers of a line are determined by the calls (`Line.Served.unique`). -/

namespace Intendant

/-- The place of a double in the order of priorities. NaN comes last, and zeros have one place. -/
noncomputable def Double.position (p : Float) : WithTop EReal := if p.isNaN then ⊤ else (Double.value p : WithTop EReal)

open Double (position)

theorem Cost.notAfter_iff {p q : Float} : Cost.notAfter p q = true ↔ position p ≤ position q := by
  refine Cost.floatNotAfter_iff.trans ?_
  unfold position
  cases hq : q.isNaN with
  | true =>
    rw [if_pos rfl]
    have hnot : ¬Double.Comparable q := fun h => Bool.false_ne_true ((Double.isNaN_eq_false.mpr h).symm.trans hq)
    exact ⟨fun _ => le_top, fun _ => .inl hnot⟩
  | false =>
    have hcomparable := Double.isNaN_eq_false.mp hq
    rw [if_neg Bool.false_ne_true, Double.le_iff_value]
    cases hp : p.isNaN with
    | true =>
      have hnot : ¬Double.Comparable p := fun h => Bool.false_ne_true ((Double.isNaN_eq_false.mpr h).symm.trans hp)
      simp [hcomparable, hnot]
    | false => simp [hcomparable, Double.isNaN_eq_false.mp hp]

namespace OpenSet
variable {α : Type}

/-! ### Calls -/

/-- A call of the queue. -/
inductive Call (α : Type) where
  | push (value : α) (priority : Float)
  | pop

/-- Whether a call pushes. -/
def Call.isPush : Call α → Bool
  | push _ _ => true
  | pop => false

/-- The answers to the pops among some calls, and the set after them. -/
def serve : OpenSet α Float → List (Call α) → List (Option (α × Float)) × OpenSet α Float
  | s, [] => ([], s)
  | s, .push v p :: calls => serve (s.push v p) calls
  | s, .pop :: calls =>
    match s.pop? with
    | some (x, rest) => (some x :: (serve rest calls).1, (serve rest calls).2)
    | none => (none :: (serve s calls).1, (serve s calls).2)

/-- Entries wait in a line in the order in which they were pushed. A pop takes the first one of those with the least
    priority. The calls are answered so, and leave another line. -/
inductive Line.Served : List (Float × α) → List (Call α) → List (Option (α × Float)) → List (Float × α) → Prop
  | done (line : List (Float × α)) : Served line [] [] line
  | push {line last : List (Float × α)} {v : α} {p : Float} {calls answers}
      (h : Served (line ++ [(p, v)]) calls answers last) : Served line (.push v p :: calls) answers last
  | none {last : List (Float × α)} {calls answers} (h : Served [] calls answers last) :
      Served [] (.pop :: calls) (.none :: answers) last
  | pop {before after last : List (Float × α)} {v : α} {p : Float} {calls answers}
      (hbefore : ∀ x ∈ before, position p < position x.1) (hafter : ∀ x ∈ after, position p ≤ position x.1)
      (h : Served (before ++ after) calls answers last) :
      Served (before ++ (p, v) :: after) (.pop :: calls) (some (v, p) :: answers) last

/-- The second list has the entries of the first one by their priorities, and in their order where the priorities agree. -/
structure StableOrder (line sorted : List (Float × α)) : Prop where
  perm : sorted.Perm line
  ordered : sorted.Pairwise fun x y => position x.1 ≤ position y.1
  stable : ∀ r, (sorted.filter fun x => position x.1 = r) = line.filter fun x => position x.1 = r

variable {line line' sorted rest last last' : List (Float × α)} {x : Float × α} {v : α} {p : Float}
  {s : OpenSet α Float} {calls : List (Call α)} {answers answers' : List (Option (α × Float))}

/-! ### Stable order -/

theorem StableOrder.nil : StableOrder ([] : List (Float × α)) [] := ⟨.refl _, .nil, fun _ => rfl⟩

theorem position_lt_of_not {p q : Float} (h : ¬Cost.notAfter q p = true) : position p < position q :=
  not_le.mp (mt Cost.notAfter_iff.mpr h)

/-- A new entry is placed behind all that have its priority. -/
theorem filter_place {l : List (Float × α)} (h : l.Pairwise fun x y => position x.1 ≤ position y.1) (r : WithTop EReal) :
    ((place p v l).filter fun x => position x.1 = r) =
      (l.filter fun x => position x.1 = r) ++ if position p = r then [(p, v)] else [] := by
  induction l with
  | nil => simp [place, List.filter_cons]
  | cons y l ih =>
    obtain ⟨hy, hl⟩ := List.pairwise_cons.mp h
    unfold place
    split
    · rw [List.filter_cons, List.filter_cons, ih hl]
      split <;> rfl
    · rename_i hnot
      have hlt := position_lt_of_not hnot
      rw [List.filter_cons]
      by_cases hr : position p = r
      · have hnone : ((y :: l).filter fun x => position x.1 = r) = [] := by
          refine List.filter_eq_nil_iff.mpr fun x hx => ?_
          have hle : position y.1 ≤ position x.1 := by
            rcases List.mem_cons.mp hx with rfl | hx
            · exact le_rfl
            · exact hy x hx
          simpa using (hr ▸ hlt.trans_le hle).ne'
        rw [if_pos (by simpa using hr), if_pos hr, hnone]
        rfl
      · rw [if_neg (by simpa using hr), if_neg hr, List.append_nil]

theorem StableOrder.place (h : StableOrder line sorted) (p : Float) (v : α) :
    StableOrder (line ++ [(p, v)]) (place p v sorted) where
  perm := (perm_place p v sorted).trans ((h.perm.cons _).trans (List.perm_append_singleton _ _).symm)
  ordered := pairwise_place (fun _ _ hle => Cost.notAfter_iff.mp hle) (fun _ hgt => (position_lt_of_not hgt).le)
    (fun _ _ hgt hyx => (position_lt_of_not hgt).le.trans hyx) h.ordered
  stable r := by
    rw [filter_place h.ordered, h.stable, List.filter_append, List.filter_singleton]
    by_cases hr : position p = r <;> simp [hr]

/-- The first entry in stable order is the first one in line of those with the least priority. -/
theorem StableOrder.first (h : StableOrder line (x :: rest)) :
    ∃ before after, line = before ++ x :: after ∧ (∀ y ∈ before, position x.1 < position y.1) ∧
      (∀ y ∈ after, position x.1 ≤ position y.1) ∧ StableOrder (before ++ after) rest := by
  obtain ⟨hfirst, hrest⟩ := List.pairwise_cons.mp h.ordered
  have hmin : ∀ y ∈ line, position x.1 ≤ position y.1 := by
    intro y hy
    rcases List.mem_cons.mp (h.perm.mem_iff.mpr hy) with rfl | hy
    · exact le_rfl
    · exact hfirst y hy
  have hclass := h.stable (position x.1)
  rw [List.filter_cons_of_pos (by simp)] at hclass
  obtain ⟨before, after, rfl, hbefore, -, -⟩ := List.filter_eq_cons_iff.mp hclass.symm
  have hlt : ∀ y ∈ before, position x.1 < position y.1 := by
    intro y hy
    have hne : position y.1 ≠ position x.1 := by simpa using hbefore y hy
    exact lt_of_le_of_ne (hmin y (List.mem_append_left _ hy)) hne.symm
  refine ⟨before, after, rfl, hlt, ?_, ?_, hrest, fun r => ?_⟩
  · exact fun y hy => hmin y (List.mem_append_right _ (List.mem_cons_of_mem x hy))
  · exact (h.perm.trans List.perm_middle).cons_inv
  · have hr := h.stable r
    rw [List.filter_append, List.filter_cons, List.filter_cons] at hr
    rw [List.filter_append]
    split at hr
    · rename_i hx
      have hnone : (before.filter fun y => position y.1 = r) = [] := by
        refine List.filter_eq_nil_iff.mpr fun y hy => ?_
        obtain rfl : position x.1 = r := by simpa using hx
        simpa using (hlt y hy).ne'
      rw [hnone] at hr ⊢
      exact (List.cons.inj hr).2
    · exact hr

/-! ### The line of an open set -/

theorem exists_served (h : StableOrder line s.entries) (calls : List (Call α)) :
    ∃ last, Line.Served line calls (s.serve calls).1 last ∧ StableOrder last (s.serve calls).2.entries := by
  induction calls generalizing s line with
  | nil => exact ⟨line, .done line, h⟩
  | cons c calls ih =>
    cases c with
    | push v p =>
      obtain ⟨last, hserved, hlast⟩ := ih (s := s.push v p) (h.place p v)
      exact ⟨last, .push hserved, hlast⟩
    | pop =>
      rw [serve]
      split
      · rename_i x t hpop
        rw [pop?_eq_some.mp hpop] at h
        obtain ⟨before, after, rfl, hbefore, hafter, hrest⟩ := h.first
        obtain ⟨last, hserved, hlast⟩ := ih hrest
        exact ⟨last, .pop hbefore hafter hserved, hlast⟩
      · rename_i hpop
        have hline : line = [] := by
          have hperm := h.perm
          rw [pop?_eq_none.mp hpop] at hperm
          exact hperm.nil_eq.symm
        subst hline
        obtain ⟨last, hserved, hlast⟩ := ih h
        exact ⟨last, .none hserved, hlast⟩

/-- There is only one entry that a line can lose. -/
theorem first_unique {before after before' after' : List (Float × α)} {x y : Float × α}
    (h : before ++ x :: after = before' ++ y :: after') (hbefore : ∀ z ∈ before, position x.1 < position z.1)
    (hafter : ∀ z ∈ after, position x.1 ≤ position z.1) (hbefore' : ∀ z ∈ before', position y.1 < position z.1)
    (hafter' : ∀ z ∈ after', position y.1 ≤ position z.1) : before = before' ∧ x = y ∧ after = after' := by
  rcases List.append_eq_append_iff.mp h with ⟨between, rfl, hrest⟩ | ⟨between, rfl, hrest⟩
  · cases between with
    | nil =>
      obtain ⟨rfl, rfl⟩ := List.cons.inj hrest
      exact ⟨(List.append_nil _).symm, rfl, rfl⟩
    | cons z between =>
      obtain ⟨rfl, rfl⟩ := List.cons.inj hrest
      have hlt := hbefore' x (List.mem_append_right _ List.mem_cons_self)
      exact absurd (hafter y (List.mem_append_right _ List.mem_cons_self)) hlt.not_ge
  · cases between with
    | nil =>
      obtain ⟨rfl, rfl⟩ := List.cons.inj hrest
      exact ⟨List.append_nil _, rfl, rfl⟩
    | cons z between =>
      obtain ⟨rfl, rfl⟩ := List.cons.inj hrest
      have hlt := hbefore y (List.mem_append_right _ List.mem_cons_self)
      exact absurd (hafter' x (List.mem_append_right _ List.mem_cons_self)) hlt.not_ge

theorem Line.Served.unique (h : Served line calls answers last) (h' : Served line calls answers' last') :
    answers = answers' ∧ last = last' := by
  induction h generalizing answers' with
  | done line =>
    cases h'
    exact ⟨rfl, rfl⟩
  | push _ ih =>
    cases h' with
    | push h' => exact ih h'
  | none _ ih =>
    generalize hline : [] = line at h'
    cases h' with
    | none h' =>
      obtain ⟨rfl, rfl⟩ := ih h'
      exact ⟨rfl, rfl⟩
    | pop => simp at hline
  | @pop before after last v p calls answers hbefore hafter _ ih =>
    generalize hline : before ++ (p, v) :: after = line at h'
    cases h' with
    | none => simp at hline
    | pop hbefore' hafter' h' =>
      obtain ⟨rfl, hx, rfl⟩ := first_unique hline hbefore hafter hbefore' hafter'
      cases hx
      obtain ⟨rfl, rfl⟩ := ih h'
      exact ⟨rfl, rfl⟩

/-- Pops that were answered with an entry have taken one away each. -/
theorem Line.Served.length (h : Served line calls answers last) :
    last.length + answers.countP Option.isSome = line.length + calls.countP Call.isPush := by
  induction h with
  | done line => rfl
  | push _ ih =>
    rw [ih, List.length_append, List.countP_cons_of_pos rfl, List.length_singleton]
    omega
  | none _ ih => exact ih
  | pop _ _ _ ih =>
    rw [List.countP_cons_of_pos rfl, List.countP_cons_of_neg (by simp [Call.isPush]), List.length_append, List.length_cons]
    rw [List.length_append] at ih
    omega

/-! ### Draining -/

theorem serve_append (s : OpenSet α Float) (calls more : List (Call α)) :
    s.serve (calls ++ more) = ((s.serve calls).1 ++ ((s.serve calls).2.serve more).1, ((s.serve calls).2.serve more).2) := by
  induction calls generalizing s with
  | nil => rfl
  | cons c calls ih =>
    cases c with
    | push v p => exact ih _
    | pop =>
      rw [List.cons_append, serve, serve]
      split <;> rw [ih] <;> rfl

/-- As many pops as there are entries answer them in their order. -/
theorem serve_pops (s : OpenSet α Float) :
    s.serve (List.replicate s.size .pop) = (s.entries.map fun x => some (x.2, x.1), empty) := by
  obtain ⟨entries⟩ := s
  induction entries with
  | nil => rfl
  | cons x entries ih =>
    change serve ⟨x :: entries⟩ (.pop :: List.replicate (OpenSet.size ⟨entries⟩) .pop) = _
    rw [serve]
    change (some (x.2, x.1) :: (serve ⟨entries⟩ _).1, (serve ⟨entries⟩ _).2) = _
    rw [ih]
    rfl

end OpenSet
end Intendant

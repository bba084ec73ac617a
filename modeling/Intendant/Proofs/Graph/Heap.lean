import Intendant.Proofs.Graph.Queue
import Mathlib.Data.List.MinMax

/-! # Numbered heaps

A heap keeps its entries in no order that shows, and gives out one that no other one precedes. If the entries are
numbered as they come, and the number counts where the priorities agree, a heap serves as a line does, as long as the
numbers do not run out (`Heap.Served.exists_line`). So heaps, open sets and lines give the same answers (`serve_stable`). -/

namespace Intendant.OpenSet
open Double (position)
variable {α : Type}

/-- An entry of a heap with the number of its push. -/
structure Numbered (α : Type) where
  value : α
  priority : Float
  number : UInt64

/-- Where priorities agree, the number counts. -/
noncomputable def Numbered.key (x : Numbered α) : WithTop EReal ×ₗ Nat := toLex (position x.priority, x.number.toNat)

/-- An entry without its number, as the open set keeps it. -/
def Numbered.entry (x : Numbered α) : Float × α := (x.priority, x.value)

/-- The entries of a heap, with the number of the last push. -/
structure Heap (α : Type) where
  entries : Multiset (Numbered α)
  number : UInt64

/-- A pop takes an entry out of a heap that no other one precedes. The calls are answered so, and leave another heap. -/
inductive Heap.Served : Heap α → List (Call α) → List (Option (α × Float)) → Heap α → Prop
  | done (heap : Heap α) : Served heap [] [] heap
  | push {heap last : Heap α} {v : α} {p : Float} {calls answers}
      (h : Served ⟨⟨v, p, heap.number + 1⟩ ::ₘ heap.entries, heap.number + 1⟩ calls answers last) :
      Served heap (.push v p :: calls) answers last
  | none {n : UInt64} {last : Heap α} {calls answers} (h : Served ⟨0, n⟩ calls answers last) :
      Served ⟨0, n⟩ (.pop :: calls) (.none :: answers) last
  | pop {x : Numbered α} {rest : Multiset (Numbered α)} {n : UInt64} {last : Heap α} {calls answers}
      (hmin : ∀ y ∈ rest, ¬y.key < x.key) (h : Served ⟨rest, n⟩ calls answers last) :
      Served ⟨x ::ₘ rest, n⟩ (.pop :: calls) (some (x.value, x.priority) :: answers) last

/-- A heap holds the entries of a line, numbered as they came. -/
def Heap.Holds (heap : Heap α) (line : List (Float × α)) : Prop :=
  ∃ numbered : List (Numbered α), heap.entries = numbered ∧ line = numbered.map Numbered.entry ∧
    (numbered.Pairwise fun x y => x.number.toNat < y.number.toNat) ∧
    ∀ x ∈ numbered, x.number.toNat ≤ heap.number.toNat

variable {heap final : Heap α} {line : List (Float × α)} {calls : List (Call α)} {answers : List (Option (α × Float))}
  {x y : Numbered α} {rest : Multiset (Numbered α)} {n : UInt64}

theorem Numbered.position_of_not_lt (h : ¬y.key < x.key) : position x.priority ≤ position y.priority := by
  refine not_lt.mp fun hlt => h ?_
  exact Prod.Lex.toLex_lt_toLex.mpr (.inl hlt)

/-- An earlier entry that does not come first has a greater priority. -/
theorem Numbered.position_of_earlier (h : ¬y.key < x.key) (hnumber : y.number.toNat < x.number.toNat) :
    position x.priority < position y.priority := by
  refine lt_of_le_of_ne (position_of_not_lt h) fun heq => h ?_
  exact Prod.Lex.toLex_lt_toLex.mpr (.inr ⟨heq.symm, hnumber⟩)

theorem toNat_next (hroom : n.toNat + 1 < 2 ^ 64) : (n + 1).toNat = n.toNat + 1 := by
  rw [UInt64.toNat_add]
  exact Nat.mod_eq_of_lt hroom

theorem Heap.Holds.push (h : heap.Holds line) (hroom : heap.number.toNat + 1 < 2 ^ 64) (v : α) (p : Float) :
    Heap.Holds ⟨⟨v, p, heap.number + 1⟩ ::ₘ heap.entries, heap.number + 1⟩ (line ++ [(p, v)]) := by
  obtain ⟨numbered, hentries, rfl, hsorted, hle⟩ := h
  have hnext := toNat_next hroom
  refine ⟨numbered ++ [⟨v, p, heap.number + 1⟩], ?_, by rw [List.map_append]; rfl, ?_, ?_⟩
  · rw [hentries, Multiset.cons_coe, Multiset.coe_eq_coe]
    exact (List.perm_append_singleton _ _).symm
  · refine List.pairwise_append.mpr ⟨hsorted, List.pairwise_singleton _ _, fun x hx y hy => ?_⟩
    obtain rfl := List.mem_singleton.mp hy
    exact hnext ▸ Nat.lt_succ_of_le (hle x hx)
  · intro x hx
    rcases List.mem_append.mp hx with hx | hx
    · exact hnext ▸ Nat.le_succ_of_le (hle x hx)
    · obtain rfl := List.mem_singleton.mp hx
      exact Nat.le_refl _

/-- What a heap gives out is the first one in line of those with the least priority. -/
theorem Heap.Holds.pop (h : Heap.Holds ⟨x ::ₘ rest, n⟩ line) (hmin : ∀ y ∈ rest, ¬y.key < x.key) :
    ∃ before after, line = before ++ x.entry :: after ∧ (∀ y ∈ before, position x.priority < position y.1) ∧
      (∀ y ∈ after, position x.priority ≤ position y.1) ∧ Heap.Holds ⟨rest, n⟩ (before ++ after) := by
  obtain ⟨numbered, hentries, rfl, hsorted, hle⟩ := h
  have hmem : x ∈ numbered := by
    rw [← Multiset.mem_coe, ← hentries]
    exact Multiset.mem_cons_self _ _
  obtain ⟨before, after, rfl⟩ := List.append_of_mem hmem
  have hrest : rest = ((before ++ after : List (Numbered α)) : Multiset (Numbered α)) := by
    refine (Multiset.cons_inj_right x).mp (hentries.trans ?_)
    rw [Multiset.cons_coe, Multiset.coe_eq_coe]
    exact List.perm_middle
  obtain ⟨-, -, hcross⟩ := List.pairwise_append.mp hsorted
  have hothers : (before ++ after).Sublist (before ++ x :: after) := (List.sublist_cons_self x after).append_left before
  refine ⟨before.map Numbered.entry, after.map Numbered.entry, by rw [List.map_append]; rfl, ?_, ?_, before ++ after, hrest,
    by rw [List.map_append], hsorted.sublist hothers, fun y hy => hle y (hothers.subset hy)⟩
  · intro e he
    obtain ⟨y, hy, rfl⟩ := List.mem_map.mp he
    refine Numbered.position_of_earlier (hmin y ?_) (hcross y hy x List.mem_cons_self)
    rw [hrest, Multiset.mem_coe]
    exact List.mem_append_left _ hy
  · intro e he
    obtain ⟨y, hy, rfl⟩ := List.mem_map.mp he
    refine Numbered.position_of_not_lt (hmin y ?_)
    rw [hrest, Multiset.mem_coe]
    exact List.mem_append_right _ hy

/-- A heap serves as the line does whose entries it holds. -/
theorem Heap.Served.exists_line (h : Served heap calls answers final) (hline : heap.Holds line)
    (hroom : heap.number.toNat + calls.countP Call.isPush < 2 ^ 64) : ∃ last, Line.Served line calls answers last := by
  -- Over the calls; each push uses up one number, and the room counts those that are to come.
  induction h generalizing line with
  | done heap => exact ⟨line, .done line⟩
  | @push heap _ v p calls _ _ ih =>
    rw [List.countP_cons_of_pos rfl] at hroom
    have hnext : heap.number.toNat + 1 < 2 ^ 64 := by omega
    obtain ⟨last, hlast⟩ := ih (hline.push hnext v p) (by rw [toNat_next hnext]; omega)
    exact ⟨last, .push hlast⟩
  | none _ ih =>
    obtain ⟨numbered, hentries, rfl, -⟩ := hline
    obtain rfl := (Multiset.coe_eq_zero numbered).mp hentries.symm
    obtain ⟨last, hlast⟩ := ih ⟨[], rfl, rfl, .nil, by simp⟩ hroom
    exact ⟨last, .none hlast⟩
  | pop hmin _ ih =>
    obtain ⟨before, after, rfl, hbefore, hafter, hholds⟩ := hline.pop hmin
    obtain ⟨last, hlast⟩ := ih hholds hroom
    exact ⟨last, .pop hbefore hafter hlast⟩

/-- A heap always has an entry to give out that no other one precedes. -/
theorem Heap.exists_served (heap : Heap α) (calls : List (Call α)) : ∃ answers last, Served heap calls answers last := by
  induction calls generalizing heap with
  | nil => exact ⟨[], heap, .done heap⟩
  | cons c calls ih =>
    cases c with
    | push v p =>
      obtain ⟨answers, last, h⟩ := ih ⟨⟨v, p, heap.number + 1⟩ ::ₘ heap.entries, heap.number + 1⟩
      exact ⟨answers, last, .push h⟩
    | pop =>
      obtain ⟨entries, n⟩ := heap
      cases hmin : entries.toList.argmin Numbered.key with
      | none =>
        obtain rfl : entries = 0 := Multiset.toList_eq_nil.mp (List.argmin_eq_none.mp hmin)
        obtain ⟨answers, last, h⟩ := ih ⟨0, n⟩
        exact ⟨.none :: answers, last, .none h⟩
      | some x =>
        obtain ⟨rest, rfl⟩ := Multiset.exists_cons_of_mem (Multiset.mem_toList.mp (List.argmin_mem hmin))
        obtain ⟨answers, last, h⟩ := ih ⟨rest, n⟩
        refine ⟨some (x.value, x.priority) :: answers, last, .pop (fun y hy => ?_) h⟩
        exact List.not_lt_of_mem_argmin (Multiset.mem_toList.mpr (Multiset.mem_cons_of_mem hy)) hmin

/-- An open set answers as a line does: every pop takes the first one of the entries with the least priority, and none
    exactly if there are no entries. Its size is the number of pushes less that of the entries taken; pops until it is
    empty give the rest of the line in stable order. A numbered heap can answer in this way, and in no other one as long
    as its numbers do not run out. -/
theorem serve_stable (calls : List (Call α)) :
    let answers := (empty.serve calls).1
    let s := (empty.serve calls).2
    (∃ line, Line.Served [] calls answers line ∧ (s.pop? = none ↔ line = []) ∧ s.size = line.length ∧
      ∃ sorted, StableOrder line sorted ∧ empty.serve (calls ++ List.replicate s.size .pop) =
        (answers ++ sorted.map fun x => some (x.2, x.1), empty)) ∧
    s.size + answers.countP Option.isSome = calls.countP Call.isPush ∧
    (calls.countP Call.isPush < 2 ^ 64 → ∀ answers', (∃ heap, Heap.Served ⟨0, 0⟩ calls answers' heap) ↔ answers' = answers) := by
  intro answers s
  obtain ⟨line, hserved, hsorted⟩ := exists_served (s := empty) StableOrder.nil calls
  have hsize : s.size = line.length := hsorted.perm.length_eq
  refine ⟨⟨line, hserved, ?_, hsize, s.entries, hsorted, ?_⟩, ?_, fun hroom answers' => ?_⟩
  · rw [pop?_eq_none]
    constructor
    · intro hnil
      exact List.Perm.nil_eq (hnil ▸ hsorted.perm) |>.symm
    · rintro rfl
      exact hsorted.perm.eq_nil
  · rw [serve_append, serve_pops]
  · rw [hsize]
    exact hserved.length.trans (Nat.zero_add _)
  · have hunique : ∀ answers' heap, Heap.Served ⟨0, 0⟩ calls answers' heap → answers' = answers := by
      intro answers' heap h
      have hstart : Heap.Holds (⟨0, 0⟩ : Heap α) [] := ⟨[], rfl, rfl, .nil, by simp⟩
      obtain ⟨last, hlast⟩ := h.exists_line hstart (by simpa using hroom)
      exact (hlast.unique hserved).1
    refine ⟨fun ⟨heap, h⟩ => hunique answers' heap h, ?_⟩
    rintro rfl
    obtain ⟨answers', heap, h⟩ := Heap.exists_served ⟨0, 0⟩ calls
    exact ⟨heap, hunique answers' heap h ▸ h⟩

/-- NaN comes first and is served last; of the two zeros the one that was pushed first is served first. -/
def zeros : List (Call String) :=
  [.push "nothing" (0.0 / 0.0), .push "below" (-0.0), .push "above" 0.0, .pop, .push "less" (-1.5), .pop, .pop, .pop, .pop]

/-- What is popped of entries at both zeros, NaN and a number below them, and after the last one. -/
def zerosServed : List (Option (String × Float)) :=
  [some ("below", -0.0), some ("less", -1.5), some ("above", 0.0), some ("nothing", 0.0 / 0.0), none]

theorem serve_stable_zeros :
    (empty.serve zeros).1 = zerosServed ∧ zeros.countP Call.isPush < 2 ^ 64 ∧
      (∃ heap, Heap.Served ⟨0, 0⟩ zeros zerosServed heap) ∧ Line.Served [] zeros zerosServed [] := by
  have hanswers : (empty.serve zeros).1 = zerosServed := by decide +kernel
  have hroom : zeros.countP Call.isPush < 2 ^ 64 := by decide
  obtain ⟨⟨line, hserved, -, hsize, -⟩, -, hheap⟩ := serve_stable zeros
  have hempty : (empty.serve zeros).2.size = 0 := by decide +kernel
  obtain rfl : line = [] := List.length_eq_zero_iff.mp (hsize.symm.trans hempty)
  rw [hanswers] at hserved
  exact ⟨hanswers, hroom, (hheap hroom zerosServed).mpr hanswers.symm, hserved⟩

end Intendant.OpenSet

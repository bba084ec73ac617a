import Intendant.Proofs.Graph.Basic

/-! # Graphs in three tables

A graph may be kept as a list of values, a list of successor lists and a number of edges, which have to be kept in step. The
tables that calls make are those of the graph that they make (`tables_ofCalls`), so the three stay in step. What the calls
leave in them can be read off the calls: the added values in their order (`values_ofCalls`), and for every vertex the
accepted edges out of it in theirs (`successors_ofCalls`). -/

namespace Intendant
variable {ν κ : Type}

/-- A call that changes a graph. -/
inductive GraphCall (ν κ : Type) where
  | addVertex (value : ν)
  | addEdge (source target : Nat) (utility : κ) (action : Action)

namespace GraphCall

/-- The value that a call adds. -/
def value? : GraphCall ν κ → Option ν
  | .addVertex value => some value
  | .addEdge .. => none

/-- The edges that calls add to a graph of a size, each with its source. An edge is accepted if both of its ends were added
    before it. -/
def accepted : Nat → List (GraphCall ν κ) → List (Nat × Edge κ)
  | _, [] => []
  | n, .addVertex _ :: calls => accepted (n + 1) calls
  | n, .addEdge source target utility action :: calls =>
    if source < n ∧ target < n then (source, ⟨target, utility, action⟩) :: accepted n calls else accepted n calls

end GraphCall

/-- A graph in three tables. -/
structure Tables (ν κ : Type) where
  values : Array ν
  successors : Array (Array (Edge κ))
  edgeCount : Nat

namespace Tables

/-- The tables of the graph without vertices. -/
def empty : Tables ν κ := ⟨#[], #[], 0⟩

/-- Adds a value with no successors. Its id is given beside the tables. -/
def addVertex (t : Tables ν κ) (value : ν) : Tables ν κ × Nat :=
  let values := t.values.push value
  ({ t with values := values, successors := t.successors.push #[] }, values.size - 1)

/-- Adds an edge, after a look at its target and then at its source. -/
def addEdge (t : Tables ν κ) (source target : Nat) (utility : κ) (action : Action) : Tables ν κ :=
  if t.values.size ≤ target then t
  else
    match t.successors[source]? with
    | some _ =>
      { t with
        successors := t.successors.modify source (·.push ⟨target, utility, action⟩)
        edgeCount := t.edgeCount + 1 }
    | none => t

theorem addEdge_of_not {t : Tables ν κ} {source target : Nat} {utility : κ} {action : Action}
    (hsize : t.successors.size = t.values.size) (h : ¬(source < t.values.size ∧ target < t.values.size)) :
    t.addEdge source target utility action = t := by
  rw [addEdge]
  split
  · rfl
  · rename_i ht
    have hnone : t.successors[source]? = none :=
      Array.getElem?_eq_none_iff.mpr (hsize ▸ Nat.le_of_not_lt fun hs => h ⟨hs, Nat.lt_of_not_le ht⟩)
    rw [hnone]

/-- The tables after a call. -/
def perform (t : Tables ν κ) : GraphCall ν κ → Tables ν κ
  | .addVertex value => (t.addVertex value).1
  | .addEdge source target utility action => t.addEdge source target utility action

/-- The tables after some calls. -/
def ofCalls (calls : List (GraphCall ν κ)) : Tables ν κ := calls.foldl perform empty

/-- One list of successors stands for every value, edges lead to values, and the number of edges is right. -/
structure InStep (t : Tables ν κ) : Prop where
  rows : t.successors.size = t.values.size
  targets : ∀ edges ∈ t.successors, ∀ e ∈ edges, e.target < t.values.size
  count : t.edgeCount = (t.successors.toList.map Array.size).sum

/-- The edges in the table of a vertex, none where there is no such table. -/
def edgesOf (t : Tables ν κ) (id : Nat) : List (Edge κ) := (t.successors[id]?.map Array.toList).getD []

/-- The first id from the end whose value is taken for the given one. -/
def lookup? (t : Tables ν κ) (same : ν → ν → Bool) (value : ν) : Option Nat :=
  (List.range t.values.size).reverse.find? fun id => t.values[id]?.any (same · value)

theorem find?_reverse_range {p : Nat → Bool} {n u : Nat} :
    (List.range n).reverse.find? p = some u ↔ p u = true ∧ u < n ∧ ∀ v, u < v → v < n → p v = false := by
  induction n with
  | zero => simp
  | succ n ih =>
    rw [List.range_succ, List.reverse_append, List.reverse_singleton, List.singleton_append, List.find?_cons]
    cases hn : p n with
    | true =>
      constructor
      · intro h
        cases h
        exact ⟨hn, Nat.lt_succ_self u, fun v hv hlt => absurd hv (Nat.not_lt.mpr (Nat.le_of_lt_succ hlt))⟩
      · rintro ⟨-, hu, hlast⟩
        rcases Nat.lt_succ_iff_lt_or_eq.mp hu with hu | rfl
        · rw [hlast n hu (Nat.lt_succ_self n)] at hn
          cases hn
        · rfl
    | false =>
      refine ih.trans (and_congr_right fun hu => ?_)
      constructor
      · rintro ⟨hlt, hlast⟩
        refine ⟨Nat.lt_succ_of_lt hlt, fun v hv hvn => ?_⟩
        rcases Nat.lt_succ_iff_lt_or_eq.mp hvn with hvn | rfl
        · exact hlast v hv hvn
        · exact hn
      · rintro ⟨hlt, hlast⟩
        refine ⟨(Nat.lt_succ_iff_lt_or_eq.mp hlt).resolve_right ?_, fun v hv hvn => hlast v hv (Nat.lt_succ_of_lt hvn)⟩
        rintro rfl
        rw [hu] at hn
        cases hn

section
variable {t : Tables ν κ} {same : ν → ν → Bool} {value : ν} {u : Nat}

theorem lookup?_eq_some_iff : t.lookup? same value = some u ↔
    (∃ w, t.values[u]? = some w ∧ same w value = true) ∧ ∀ v w, u < v → t.values[v]? = some w → same w value = false := by
  refine find?_reverse_range.trans ?_
  rw [Option.any_eq_true]
  constructor
  · rintro ⟨hu, -, hlast⟩
    refine ⟨hu, fun v w hv hw => ?_⟩
    have hnot := hlast v hv (Array.getElem?_eq_some_iff.mp hw).1
    rwa [hw, Option.any_some] at hnot
  · rintro ⟨⟨w, hw, hsame⟩, hlast⟩
    refine ⟨⟨w, hw, hsame⟩, (Array.getElem?_eq_some_iff.mp hw).1, fun v hv hlt => ?_⟩
    rw [Array.getElem?_eq_getElem hlt, Option.any_some]
    exact hlast v _ hv (Array.getElem?_eq_getElem hlt)

theorem lookup?_eq_none_iff : t.lookup? same value = none ↔
    ∀ (v : Nat) (w : ν), t.values[v]? = some w → same w value = false := by
  rw [lookup?, List.find?_eq_none]
  constructor
  · intro h v w hw
    have hmem : v ∈ (List.range t.values.size).reverse :=
      List.mem_reverse.mpr (List.mem_range.mpr (Array.getElem?_eq_some_iff.mp hw).1)
    have hnot := h v hmem
    rw [hw, Option.any_some] at hnot
    exact Bool.eq_false_iff.mpr hnot
  · intro h v _ hany
    obtain ⟨w, hw, hsame⟩ := (Option.any_eq_true ..).mp hany
    rw [h v w hw] at hsame
    cases hsame

end

end Tables

namespace Graph

/-- The graph after a call. -/
def perform (g : Graph ν κ) : GraphCall ν κ → Graph ν κ
  | .addVertex value => g.addVertex value
  | .addEdge source target utility action => g.addEdge source target utility action

/-- The graph after some calls. -/
def ofCalls (calls : List (GraphCall ν κ)) : Graph ν κ := calls.foldl perform empty

/-- The tables of a graph. -/
def tables (g : Graph ν κ) : Tables ν κ where
  values := g.vertices.map (·.value)
  successors := g.vertices.map (·.edges)
  edgeCount := g.edgeCount

variable {g : Graph ν κ} {source target u v : Nat} {utility : κ} {action : Action} {value : ν}
  {calls more : List (GraphCall ν κ)}

/-! ### The tables of a graph -/

@[simp] theorem size_values_tables (g : Graph ν κ) : g.tables.values.size = g.size := Array.size_map

theorem toList_values_tables (g : Graph ν κ) : g.tables.values.toList = g.values := Array.toList_map

theorem getElem?_values_tables (g : Graph ν κ) (u : Nat) : g.tables.values[u]? = g.value? u := by
  rw [tables, Array.getElem?_map, value?]

theorem size_successors_tables (g : Graph ν κ) : g.tables.successors.size = g.tables.values.size := by
  rw [tables, Array.size_map, Array.size_map]

theorem edgesOf_tables (g : Graph ν κ) (u : Nat) : g.tables.edgesOf u = g.successors u := by
  rw [Tables.edgesOf, tables, Array.getElem?_map, successors]
  cases g.vertices[u]? <;> rfl

theorem edgeCount_tables (g : Graph ν κ) :
    g.tables.edgeCount = (g.tables.successors.toList.map Array.size).sum := by
  rw [tables, edgeCount_eq_sum, Array.toList_map, List.map_map]
  rfl

theorem mem_successors_of_mem_tables {edges : Array (Edge κ)} {e : Edge κ} (hedges : edges ∈ g.tables.successors)
    (he : e ∈ edges) : ∃ u, e ∈ g.successors u := by
  obtain ⟨u, hu, rfl⟩ := Array.mem_iff_getElem.mp hedges
  refine ⟨u, ?_⟩
  rw [← edgesOf_tables, Tables.edgesOf, Array.getElem?_eq_getElem hu]
  exact Array.mem_toList_iff.mpr he

/-- The newest vertex is the first one from the end whose value is equal. -/
theorem lookup?_tables [DecidableEq ν] (g : Graph ν κ) (value : ν) :
    g.tables.lookup? (fun v w => decide (v = w)) value = g.newest? value := by
  cases hnewest : g.newest? value with
  | none =>
    refine Tables.lookup?_eq_none_iff.mpr fun v w hw => decide_eq_false ?_
    rintro rfl
    exact value?_of_newest?_eq_none hnewest v (g.getElem?_values_tables v ▸ hw)
  | some u =>
    obtain ⟨hu, hlast⟩ := newest?_eq_some_iff.mp hnewest
    refine Tables.lookup?_eq_some_iff.mpr ⟨⟨value, (g.getElem?_values_tables u).trans hu, decide_eq_true rfl⟩, ?_⟩
    intro v w hv hw
    refine decide_eq_false ?_
    rintro rfl
    exact hlast v hv (g.getElem?_values_tables v ▸ hw)

/-! ### Calls on both -/

theorem tables_addVertex (g : Graph ν κ) (value : ν) : (g.addVertex value).tables = (g.tables.addVertex value).1 := by
  have hcount : (g.addVertex value).edgeCount = g.edgeCount := by
    rw [edgeCount_eq_sum, edgeCount_eq_sum, addVertex, Array.toList_push, List.map_append, List.sum_append]
    rfl
  rw [tables, hcount, addVertex, Array.map_push, Array.map_push]
  rfl

theorem map_modify {α β : Type} (f : α → β) (change : α → α) (change' : β → β) (h : ∀ x, f (change x) = change' (f x))
    (xs : Array α) (i : Nat) : (xs.modify i change).map f = (xs.map f).modify i change' := by
  refine Array.ext_getElem? fun j => ?_
  simp only [Array.getElem?_map, Array.getElem?_modify]
  split
  · rw [Option.map_map, Option.map_map]
    exact congrArg (Option.map · _) (funext h)
  · rfl

theorem addEdge_of_not (h : ¬(source < g.size ∧ target < g.size)) : g.addEdge source target utility action = g := by
  rw [addEdge]
  split
  · rename_i ht
    have hs : g.vertices.size ≤ source := Nat.le_of_not_lt fun hs => h ⟨hs, ht⟩
    refine congrArg Graph.mk (Array.ext_getElem? fun u => ?_)
    rw [Array.getElem?_modify]
    split
    · rename_i hu
      rw [← hu, Array.getElem?_eq_none hs, Option.map_none]
    · rfl
  · rfl

theorem tables_addEdge (g : Graph ν κ) (source target : Nat) (utility : κ) (action : Action) :
    (g.addEdge source target utility action).tables = g.tables.addEdge source target utility action := by
  by_cases h : source < g.size ∧ target < g.size
  · obtain ⟨hs, ht⟩ := h
    have hsome : g.tables.successors[source]? = some g.vertices[source].edges := by
      rw [tables, Array.getElem?_map, Array.getElem?_eq_getElem hs]
      rfl
    have hvalues : (g.addEdge source target utility action).tables.values = g.tables.values :=
      Array.ext_getElem? fun u => by rw [getElem?_values_tables, getElem?_values_tables, value?_addEdge]
    have hedges : (g.addEdge source target utility action).tables.successors =
        g.tables.successors.modify source (·.push ⟨target, utility, action⟩) := by
      rw [addEdge, if_pos ht]
      exact map_modify Vertex.edges (fun v => { v with edges := v.edges.push ⟨target, utility, action⟩ })
        (·.push ⟨target, utility, action⟩) (fun _ => rfl) g.vertices source
    have hcount : (g.addEdge source target utility action).tables.edgeCount = g.tables.edgeCount + 1 :=
      edgeCount_addEdge hs ht
    rw [Tables.addEdge, if_neg (Nat.not_le.mpr (by rwa [size_values_tables])), hsome, ← hvalues, ← hedges, ← hcount]
  · rw [addEdge_of_not h, Tables.addEdge_of_not (size_successors_tables g) (by rwa [size_values_tables])]

theorem tables_empty : (empty : Graph ν κ).tables = Tables.empty := by
  simp [tables, empty, edgeCount, Tables.empty]

theorem tables_ofCalls (calls : List (GraphCall ν κ)) : (ofCalls calls).tables = Tables.ofCalls calls := by
  -- Making a call and reading off the tables commute.
  have h : calls.foldl Tables.perform (tables empty) = (calls.foldl perform empty).tables := by
    refine List.foldl_hom tables fun g c => ?_
    cases c with
    | addVertex value => exact (tables_addVertex g value).symm
    | addEdge source target utility action => exact (tables_addEdge g source target utility action).symm
  rw [tables_empty] at h
  exact h.symm

/-! ### What calls leave -/

theorem values_perform (g : Graph ν κ) (c : GraphCall ν κ) : (g.perform c).values = g.values ++ c.value?.toList := by
  cases c with
  | addVertex value => exact values_addVertex g value
  | addEdge source target utility action =>
    exact (values_addEdge g source target utility action).trans (List.append_nil _).symm

theorem values_foldl (g : Graph ν κ) (calls : List (GraphCall ν κ)) :
    (calls.foldl perform g).values = g.values ++ calls.filterMap GraphCall.value? := by
  induction calls generalizing g with
  | nil => exact (List.append_nil _).symm
  | cons c calls ih =>
    rw [List.foldl_cons, ih, values_perform, List.append_assoc]
    cases c <;> rfl

theorem successors_foldl (g : Graph ν κ) (calls : List (GraphCall ν κ)) (u : Nat) :
    (calls.foldl perform g).successors u =
      g.successors u ++ ((GraphCall.accepted g.size calls).filter (·.1 = u)).map (·.2) := by
  induction calls generalizing g with
  | nil => exact (List.append_nil _).symm
  | cons c calls ih =>
    rw [List.foldl_cons, ih]
    cases c with
    | addVertex value => rw [perform, successors_addVertex, size_addVertex, GraphCall.accepted]
    | addEdge source target utility action =>
      rw [perform, size_addEdge, GraphCall.accepted]
      split
      · rename_i h
        rw [successors_addEdge h.1 h.2]
        by_cases hu : u = source
        · subst hu
          simp
        · simp [hu, Ne.symm hu]
      · rename_i h
        rw [successors_addEdge_of_not h]

theorem ofCalls_append (calls more : List (GraphCall ν κ)) : ofCalls (calls ++ more) = more.foldl perform (ofCalls calls) :=
  List.foldl_append

theorem values_ofCalls (calls : List (GraphCall ν κ)) :
    (ofCalls calls).values = calls.filterMap GraphCall.value? := values_foldl empty calls

theorem successors_ofCalls (calls : List (GraphCall ν κ)) (u : Nat) :
    (ofCalls calls).successors u = ((GraphCall.accepted 0 calls).filter (·.1 = u)).map (·.2) := by
  have h := successors_foldl empty calls u
  rwa [successors_empty, List.nil_append] at h

/-- All edges lead to vertices. -/
def Closed (g : Graph ν κ) : Prop := ∀ u, ∀ e ∈ g.successors u, e.target < g.size

theorem Closed.perform (h : g.Closed) (c : GraphCall ν κ) : (g.perform c).Closed := by
  intro u e he
  cases c with
  | addVertex value =>
    rw [Graph.perform, successors_addVertex] at he
    rw [Graph.perform, size_addVertex]
    exact Nat.lt_succ_of_lt (h u e he)
  | addEdge source target utility action =>
    rw [Graph.perform, size_addEdge]
    rcases mem_successors_addEdge.mp he with he | ⟨-, ht, -, rfl⟩
    · exact h u e he
    · exact ht

theorem closed_ofCalls (calls : List (GraphCall ν κ)) : (ofCalls calls).Closed := by
  have hempty : (empty : Graph ν κ).Closed := by
    intro u e he
    rw [successors_empty] at he
    cases he
  exact List.foldlRecOn calls perform hempty fun _ h c _ => h.perform c

theorem Closed.inStep (h : g.Closed) : g.tables.InStep where
  rows := size_successors_tables g
  targets edges hedges e he := by
    obtain ⟨u, hu⟩ := mem_successors_of_mem_tables hedges he
    rw [size_values_tables]
    exact h u e hu
  count := edgeCount_tables g

end Graph
end Intendant

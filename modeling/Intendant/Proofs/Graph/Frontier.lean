import Intendant.Proofs.Graph.Invariant

/-! # The open set of a search

Between two rounds every vertex with a score waits in the open set with that score, or the edges out of it are
followed and it is not the goal (`Frontier`). The vertex that was taken out is exempt until it is expanded. Entries
with an outdated score may stay in the open set; they only cause a vertex to be expanded once more. -/

namespace Intendant.Search
open Cost
variable {ν κ : Type} [Cost κ]

/-- A vertex is in the open set, with the priority that belongs to its score. -/
def Waiting (g : Graph ν κ) (estimate : ν → κ) (p : Progress κ) (v : Nat) (s : κ) : Prop :=
  ∃ value, g.value? v = some value ∧ (add s (estimate value), v) ∈ p.openSet.entries

/-- An edge out of a vertex with the given score offers its target no improvement. -/
def Followed (mode : CostMode) (p : Progress κ) (s : κ) (e : Edge κ) : Prop :=
  ∃ r, p.score? e.target = some r ∧ AtMost r (add s (edgeCost mode e))

/-- The edges from a vertex with the given score to other vertices are followed. -/
def Settled (g : Graph ν κ) (mode : CostMode) (p : Progress κ) (v : Nat) (s : κ) : Prop :=
  ∀ e ∈ g.successors v, e.target < g.size → Followed mode p s e

/-- The progress after the first round. The start, whose score cannot improve, never comes back. -/
structure Frontier [Lawful κ] (g : Graph ν κ) (mode : CostMode) (estimate : ν → κ) (start goal : Nat) (busy : Option Nat)
    (p : Progress κ) : Prop extends Consistent g mode start p where
  entry : ∀ k v, (k, v) ∈ p.openSet.entries → v ≠ start ∧ ∃ s s₀ value, p.score? v = some s ∧
    g.value? v = some value ∧ Lawful.Sound s₀ ∧ AtMost s s₀ ∧ k = add s₀ (estimate value)
  closed : ∀ v s, p.score? v = some s → busy ≠ some v →
    Waiting g estimate p v s ∨ v ≠ goal ∧ Settled g mode p v s

variable [Lawful κ] {g : Graph ν κ} {mode : CostMode} {estimate : ν → κ} {start goal u v : Nat} {p : Progress κ}
  {e : Edge κ} {r s k : κ} {rest : OpenSet Nat κ}

theorem Followed.reach (hpay : Payable g mode) (h : Consistent g mode start p) (hv : v < p.scores.size)
    (hs : Lawful.Sound s) (himp : p.improves v s = true) {f : Edge κ} (hr : Lawful.Sound r) (hf : f ∈ g.successors u)
    (hp : Followed mode p r f) {a : Arrival} : Followed mode (p.reach v s k a) r f := by
  obtain ⟨q, hq, hle⟩ := hp
  exact h.atMost_reach hpay hv hs himp hq hle (Lawful.sound_add hr (hpay u f hf))

namespace Frontier

theorem reach (hpay : Payable g mode) (h : Frontier g mode estimate start goal (some u) p)
    (hu : p.score? u = some r) (he : e ∈ g.successors u) {value : ν} (hvalue : g.value? e.target = some value)
    (himp : p.improves e.target (add r (edgeCost mode e)) = true) :
    Frontier g mode estimate start goal (some u) (p.reach e.target (add r (edgeCost mode e))
      (add (add r (edgeCost mode e)) (estimate value)) (.via u e.action)) := by
  have ht := Graph.lt_size_of_value? hvalue
  have hscores : e.target < p.scores.size := h.scores_size.symm ▸ ht
  have hsum := Lawful.sound_add (h.sound hpay hu) (hpay u e he)
  refine ⟨h.toConsistent.reach hpay hu he ht himp, fun k v hmem => ?_, fun v s hs hv => ?_⟩
  · rcases OpenSet.mem_push.mp hmem with heq | hmem
    · cases heq
      exact ⟨h.target_ne_start hpay hu he himp, _, _, value, Progress.score?_reach_self hscores, hvalue, hsum,
        .refl _, rfl⟩
    · obtain ⟨hne, s, s₀, value', hs, hvalue', hs₀, hle, rfl⟩ := h.entry k v hmem
      obtain ⟨s', hs', hle'⟩ := h.atMost_reach hpay hscores hsum himp hs hle hs₀
      exact ⟨hne, s', s₀, value', hs', hvalue', hs₀, hle', rfl⟩
  · by_cases hvt : v = e.target
    · subst hvt
      rw [Progress.score?_reach_self hscores] at hs
      cases hs
      exact .inl ⟨value, hvalue, OpenSet.mem_push.mpr (.inl rfl)⟩
    · rw [Progress.score?_reach_of_ne hvt] at hs
      rcases h.closed v s hs hv with ⟨value', hvalue', hmem⟩ | ⟨hne, hsettled⟩
      · exact .inl ⟨value', hvalue', OpenSet.mem_push.mpr (.inr hmem)⟩
      · exact .inr ⟨hne, fun f hf hft =>
          (hsettled f hf hft).reach hpay h.toConsistent hscores hsum himp (h.sound hpay hs) hf⟩

/-- The score of the vertex under expansion stays: no edge leads back to it with an improvement. -/
theorem score?_reach (hpay : Payable g mode) (h : Frontier g mode estimate start goal (some u) p)
    (hu : p.score? u = some r) (he : e ∈ g.successors u)
    (himp : p.improves e.target (add r (edgeCost mode e)) = true) {a : Arrival} :
    (p.reach e.target (add r (edgeCost mode e)) k a).score? u = some r :=
  (Progress.score?_reach_of_ne (h.target_ne hpay hu he himp).symm).trans hu

/-- Following some of the edges out of a vertex. -/
theorem foldl_relax (hpay : Payable g mode) (hS : (simpleTotals g mode start).Finite)
    (h : Frontier g mode estimate start goal (some u) p) (hu : p.score? u = some r) {es : List (Edge κ)}
    (hes : ∀ e ∈ es, e ∈ g.successors u) :
    Frontier g mode estimate start goal (some u) (es.foldl (relax g mode estimate u r) p) ∧
      (es.foldl (relax g mode estimate u r) p).score? u = some r ∧
      potential (simpleTotals g mode start) g (es.foldl (relax g mode estimate u r) p) ≤
        potential (simpleTotals g mode start) g p := by
  refine foldl_relax_induction (P := fun q => Frontier g mode estimate start goal (some u) q ∧ q.score? u = some r ∧
    potential (simpleTotals g mode start) g q ≤ potential (simpleTotals g mode start) g p) ?_ ⟨h, hu, le_rfl⟩
  rintro q ⟨hq, hqu, hle⟩ e he value hvalue himp
  have he := hes e he
  have ht : e.target < g.size := Graph.lt_size_of_value? hvalue
  exact ⟨hq.reach hpay hqu he hvalue himp, hq.score?_reach hpay hqu he himp,
    (potential_reach_le hS hq.scores_size ht (hq.mem_simpleTotals hpay hqu he himp) himp _ _).trans hle⟩

/-- An edge is followed once it is taken up, whatever edges come after it. -/
theorem followed (hpay : Payable g mode) (hS : (simpleTotals g mode start).Finite)
    (h : Frontier g mode estimate start goal (some u) p) (hu : p.score? u = some r) (he : e ∈ g.successors u)
    (ht : e.target < g.size) : Followed mode (expand g mode estimate u p) r e := by
  -- The edges before this one keep the frontier, and those after it only lower scores.
  obtain ⟨before, after, hsplit⟩ := List.append_of_mem he
  have hbefore : ∀ f ∈ before, f ∈ g.successors u := by simp +contextual [hsplit]
  have hafter : ∀ f ∈ after, f ∈ g.successors u := by simp +contextual [hsplit]
  obtain ⟨hq, hqu, -⟩ := h.foldl_relax hpay hS hu hbefore
  rw [expand_eq hu, hsplit, List.foldl_append, List.foldl_cons]
  generalize before.foldl (relax g mode estimate u r) p = q at hq hqu ⊢
  have hrelaxed : Frontier g mode estimate start goal (some u) (relax g mode estimate u r q e) ∧
      (relax g mode estimate u r q e).score? u = some r ∧ Followed mode (relax g mode estimate u r q e) r e := by
    rcases relax_cases g mode estimate u r q e with ⟨heq, hfollowed⟩ | ⟨value, hvalue, himp, heq⟩
    · rw [heq]
      exact ⟨hq, hqu, hfollowed ht⟩
    · rw [heq]
      exact ⟨hq.reach hpay hqu he hvalue himp, hq.score?_reach hpay hqu he himp, _,
        Progress.score?_reach_self (hq.scores_size.symm ▸ ht), .refl _⟩
  refine (foldl_relax_induction (P := fun q => Frontier g mode estimate start goal (some u) q ∧ q.score? u = some r ∧
    Followed mode q r e) ?_ hrelaxed).2.2
  rintro q ⟨hq, hqu, hfollowed⟩ f hf value hvalue himp
  have hf := hafter f hf
  have hft : f.target < q.scores.size := hq.scores_size.symm ▸ Graph.lt_size_of_value? hvalue
  have hr := hq.sound hpay hqu
  exact ⟨hq.reach hpay hqu hf hvalue himp, hq.score?_reach hpay hqu hf himp,
    hfollowed.reach hpay hq.toConsistent hft (Lawful.sound_add hr (hpay u f hf)) himp hr he⟩

/-- Expanding the vertex that was taken out closes the frontier again and raises no potential. -/
theorem expand (hpay : Payable g mode) (hS : (simpleTotals g mode start).Finite)
    (h : Frontier g mode estimate start goal (some u) p) (hu : p.score? u = some r) (hne : u ≠ goal) :
    Frontier g mode estimate start goal none (expand g mode estimate u p) ∧
      potential (simpleTotals g mode start) g (Search.expand g mode estimate u p) ≤
        potential (simpleTotals g mode start) g p := by
  have hfollowed := fun e he ht => h.followed (e := e) hpay hS hu he ht
  obtain ⟨hq, hqu, hle⟩ := h.foldl_relax hpay hS hu fun _ he => he
  rw [expand_eq hu] at hfollowed ⊢
  refine ⟨⟨hq.toConsistent, hq.entry, fun v s hs _ => ?_⟩, hle⟩
  by_cases hv : v = u
  · subst hv
    rw [hqu] at hs
    cases hs
    exact .inr ⟨hne, fun e he ht => hfollowed e he ht⟩
  · exact hq.closed v s hs fun heq => hv (Option.some.inj heq).symm

/-- Taking a vertex out exempts it. -/
theorem pop (h : Frontier g mode estimate start goal none p) (hpop : p.openSet.pop? = some ((u, k), rest)) :
    Frontier g mode estimate start goal (some u) { p with openSet := rest } := by
  have hentries := OpenSet.pop?_eq_some.mp hpop
  have htraced : ∀ {v es s}, Traced g mode start p v es s → Traced g mode start { p with openSet := rest } v es s := by
    intro v es s htr
    induction htr with
    | start hs ha => exact .start hs ha
    | via _ he ha hs hc ih => exact .via ih he ha hs hc
  refine ⟨⟨h.scores_size, h.arrivals_size, h.score_start, fun v s hs => ?_, h.history⟩, fun k v hmem => ?_,
    fun v s hs hv => ?_⟩
  · obtain ⟨es, hes⟩ := h.traced v s hs
    exact ⟨es, htraced hes⟩
  · exact h.entry k v (hentries ▸ List.mem_cons_of_mem _ hmem)
  · rcases h.closed v s hs (Option.some_ne_none v).symm with ⟨value, hvalue, hmem⟩ | hsettled
    · rw [hentries] at hmem
      rcases List.mem_cons.mp hmem with heq | hmem
      · cases heq
        exact absurd rfl hv
      · exact .inl ⟨value, hvalue, hmem⟩
    · exact .inr hsettled

end Frontier

theorem Frontier.departed (hstart : start < g.size) :
    Frontier g mode estimate start goal (some start) (.departed g.size start) := by
  have hself : (Progress.departed g.size start : Progress κ).score? start = some zero := by
    rw [Progress.score?_departed hstart, if_pos rfl]
  have harrival : (Progress.departed g.size start : Progress κ).arrival? start = some .start :=
    Progress.arrival?_departed hstart
  have hscore : ∀ v s, (Progress.departed g.size start : Progress κ).score? v = some s → v = start ∧ s = zero := by
    intro v s hs
    rw [Progress.score?_departed hstart] at hs
    split at hs
    · exact ⟨‹_›, (Option.some.inj hs).symm⟩
    · cases hs
  constructor
  · refine ⟨?_, ?_, hself, fun v s hs => ?_, fun v s hs => ?_⟩
    · simp [Progress.departed, Progress.initial]
    · simp [Progress.departed, Progress.initial]
    · obtain ⟨rfl, rfl⟩ := hscore v s hs
      exact ⟨[], .start hself harrival⟩
    · obtain ⟨rfl, rfl⟩ := hscore v s hs
      refine ⟨[], rfl, by simp [Graph.visited], rfl, fun x hx => ?_⟩
      obtain rfl : x = v := by simpa [Graph.visited] using hx
      exact ⟨zero, hself, .refl _⟩
  · intro k v hmem
    cases hmem
  · intro v s hs hv
    exact absurd (congrArg some (hscore v s hs).1.symm) hv

end Intendant.Search

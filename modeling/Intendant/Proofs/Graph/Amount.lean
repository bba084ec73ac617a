import Intendant.Proofs.Double.Value
import Intendant.Proofs.Graph.Unrounded

/-! # Exact amounts

The values of doubles are extended real numbers. An amount is such a number, or undefined like the sum of opposite
infinities; as a priority, what is undefined comes last. In a search over amounts one walk along which no estimate
exceeds what remains keeps the path that is found as cheap as this walk, whatever the other estimates are
(`within_walk_bound`). -/

namespace Intendant

/-- What a double can be as an exact amount: a number, infinities among them, or none. -/
inductive Amount where
  | number (x : EReal)
  | undefined

namespace Amount

/-- The number of an amount; zero where it is undefined. -/
noncomputable def toEReal : Amount → EReal
  | number x => x
  | undefined => 0

open Classical in
/-- The sum of two amounts. Opposite infinities have none. -/
noncomputable def add : Amount → Amount → Amount
  | number x, number y => if x = ⊤ ∧ y = ⊥ ∨ x = ⊥ ∧ y = ⊤ then undefined else number (x + y)
  | _, _ => undefined

open Classical in
/-- The strict order, in which the undefined amount takes no part. -/
noncomputable def less : Amount → Amount → Bool
  | number x, number y => decide (x < y)
  | _, _ => false

open Classical in
/-- The order of the open set, with the undefined amount last. -/
noncomputable def notAfter : Amount → Amount → Bool
  | _, undefined => true
  | undefined, number _ => false
  | number x, number y => decide (x ≤ y)

noncomputable instance : Cost Amount where
  zero := number 0
  one := number 1
  add := add
  less := less
  notAfter := notAfter

open Cost

theorem atMost_number {x y : EReal} : AtMost (number x) (number y) ↔ x ≤ y := by
  rw [← not_lt]
  exact decide_eq_false_iff_not

/-- Without minus infinity there are no opposite infinities. -/
theorem add_number {x y : EReal} (hx : x ≠ ⊥) (hy : y ≠ ⊥) : Cost.add (number x) (number y) = number (x + y) :=
  if_neg fun h => h.elim (fun h => hy h.2) fun h => hx h.1

theorem ne_bot {x : EReal} (hx : 0 ≤ x) : x ≠ ⊥ := (EReal.bot_lt_zero.trans_le hx).ne'

/-- A number that is not negative. -/
def Sound (a : Amount) : Prop := ∃ x, 0 ≤ x ∧ a = number x

theorem Sound.nonneg {a : Amount} (h : Sound a) : 0 ≤ a.toEReal := by
  obtain ⟨x, hx, rfl⟩ := h
  exact hx

theorem sound_number {x : EReal} (hx : 0 ≤ x) : Sound (number x) := ⟨x, hx, rfl⟩

theorem Sound.add {a b : Amount} (ha : Sound a) (hb : Sound b) : Sound (Cost.add a b) := by
  obtain ⟨x, hx, rfl⟩ := ha
  obtain ⟨y, hy, rfl⟩ := hb
  exact ⟨x + y, add_nonneg hx hy, add_number (ne_bot hx) (ne_bot hy)⟩

theorem Sound.toEReal_add {a b : Amount} (ha : Sound a) (hb : Sound b) :
    (Cost.add a b).toEReal = a.toEReal + b.toEReal := by
  obtain ⟨x, hx, rfl⟩ := ha
  obtain ⟨y, hy, rfl⟩ := hb
  rw [add_number (ne_bot hx) (ne_bot hy)]
  rfl

theorem Sound.atMost_iff {a b : Amount} (ha : Sound a) (hb : Sound b) : AtMost a b ↔ a.toEReal ≤ b.toEReal := by
  obtain ⟨x, -, rfl⟩ := ha
  obtain ⟨y, -, rfl⟩ := hb
  exact atMost_number

theorem Sound.trans {a b c : Amount} (ha : Sound a) (hb : Sound b) (hc : Sound c) (h : AtMost a b) (h' : AtMost b c) :
    AtMost a c :=
  (ha.atMost_iff hc).mpr (((ha.atMost_iff hb).mp h).trans ((hb.atMost_iff hc).mp h'))

theorem Sound.add_atMost {a b c : Amount} (ha : Sound a) (hb : Sound b) (hc : Sound c) (h : AtMost a b) :
    AtMost (Cost.add a c) (Cost.add b c) := by
  rw [(ha.add hc).atMost_iff (hb.add hc), ha.toEReal_add hc, hb.toEReal_add hc]
  exact add_le_add_left ((ha.atMost_iff hb).mp h) _

theorem Sound.atMost_add {a c : Amount} (ha : Sound a) (hc : Sound c) : AtMost a (Cost.add a c) := by
  rw [ha.atMost_iff (ha.add hc), ha.toEReal_add hc]
  exact le_add_of_nonneg_right hc.nonneg

/-! ### Doubles as amounts -/

/-- The exact amount of a double. -/
noncomputable def ofFloat (a : Float) : Amount := if a.isNaN then undefined else number (Double.value a)

variable {a : Float}

theorem ofFloat_of_comparable (ha : Double.Comparable a) : ofFloat a = number (Double.value a) := by
  rw [ofFloat, Double.isNaN_eq_false.mpr ha, if_neg Bool.false_ne_true]

theorem ofFloat_of_nan (ha : Double.unpacked a = .notANumber) : ofFloat a = undefined := by
  refine if_pos (Bool.not_eq_false _ ▸ fun h => ?_)
  exact Double.isNaN_eq_false.mp h ha

theorem ofFloat_of_zero {s : Float.Model.UnpackedFloat.Sign} (ha : Double.unpacked a = .zero s) :
    ofFloat a = number 0 := by
  have hcomparable : Double.Comparable a := by
    intro hnan
    rw [ha] at hnan
    cases hnan
  rw [ofFloat_of_comparable hcomparable, Double.value, ha]
  rfl

theorem toEReal_ofFloat (a : Float) : (ofFloat a).toEReal = Double.value a := by
  by_cases ha : Double.unpacked a = .notANumber
  · rw [ofFloat_of_nan ha, Double.value, ha]
    rfl
  · rw [ofFloat_of_comparable ha]
    rfl

theorem sound_ofFloat (ha : 0 ≤ a) : Sound (ofFloat a) := by
  rw [ofFloat_of_comparable (Double.comparable_of_nonneg ha)]
  exact sound_number (Double.value_le_value ha)

/-! ### Lawfulness -/

instance : Strict Amount where
  less_irrefl a := by
    cases a with
    | number x => exact decide_eq_false (lt_irrefl x)
    | undefined => rfl
  less_trans {a b c} h h' := by
    cases b with
    | undefined => cases h'
    | number y =>
      cases a with
      | undefined => cases h
      | number x =>
        cases c with
        | undefined => cases h'
        | number z => exact decide_eq_true ((of_decide_eq_true h).trans (of_decide_eq_true h'))

instance : Unrounded Amount where
  Sound := Sound
  Charged a c b := Sound a ∧ Sound c ∧ Sound b ∧ AtMost (Cost.add a c) b
  sound_zero := sound_number le_rfl
  sound_one := sound_number zero_le_one
  sound_add := Sound.add
  zero_atMost := by
    rintro _ ⟨x, hx, rfl⟩
    exact atMost_number.mpr hx
  atMost_trans := Sound.trans
  charged_add ha hc := ⟨ha, hc, ha.add hc, .refl _⟩
  charged_of_atMost := by
    rintro a a' b c - ha' - hle ⟨ha, hc, hb, hcharged⟩
    exact ⟨ha', hc, hb, (ha'.add hc).trans (ha.add hc) hb (ha'.add_atMost ha hc hle) hcharged⟩
  atMost_of_charged := by
    rintro a b c ⟨ha, hc, hb, hcharged⟩
    exact ha.trans (ha.add hc) hb (ha.atMost_add hc) hcharged
  add_atMost := Sound.add_atMost
  add_atMost_of_charged h := h.2.2.2

instance : Ranked Amount where
  notAfter_total a b := by
    cases a with
    | undefined => cases b <;> exact .inr rfl
    | number x =>
      cases b with
      | undefined => exact .inl rfl
      | number y => exact (le_total x y).imp decide_eq_true decide_eq_true
  notAfter_trans {a b c} h h' := by
    cases c with
    | undefined => cases a <;> rfl
    | number z =>
      cases b with
      | undefined => cases h'
      | number y =>
        cases a with
        | undefined => cases h
        | number x => exact decide_eq_true ((of_decide_eq_true h).trans (of_decide_eq_true h'))

end Amount

namespace Search
open Cost
open Intendant.Graph (visited)
variable {ν : Type} {g : Graph ν Amount} {estimate : ν → Amount} {start goal u v : Nat} {q : Progress Amount}
  {es fs : List (Edge Amount)} {s : Amount}

/-- The total of the utilities. -/
noncomputable def price (es : List (Edge Amount)) : EReal := (es.map (·.utility.toEReal)).sum

theorem price_append (ps qs : List (Edge Amount)) : price (ps ++ qs) = price ps + price qs := by
  rw [price, List.map_append, List.sum_append]
  rfl

theorem total_eq_price (hpay : Payable g .utility) (h : g.Walk u es v) : (total .utility es).toEReal = price es := by
  induction es using List.reverseRecOn generalizing v with
  | nil => rfl
  | append_singleton es e ih =>
    obtain ⟨x, hes, he, -⟩ := Graph.walk_concat_iff.mp h
    have hsound : Amount.Sound (total .utility es) := sound_total hpay hes Lawful.sound_zero
    rw [total_concat, hsound.toEReal_add (hpay x e he), ih hes, price_append]
    simp [price, edgeCost]

theorem nonneg_price (hpay : Payable g .utility) (h : g.Walk u es v) : 0 ≤ price es := by
  have hsound : Amount.Sound (total .utility es) := sound_total hpay h Lawful.sound_zero
  rw [← total_eq_price hpay h]
  exact hsound.nonneg

/-- When the goal is taken, its score is at most the price of a walk along which no estimate exceeds what remains. -/
theorem Frontier.score_le_price (hpay : Payable g .utility) (h : Frontier g .utility estimate start goal none q)
    (hordered : q.openSet.Ordered) {k : Amount} {rest : OpenSet Nat Amount}
    (hpop : q.openSet.pop? = some ((goal, k), rest)) (hs : q.score? goal = some s) {target : ν}
    (htarget : g.value? goal = some target) (hends : estimate target = .number 0 ∨ estimate target = .undefined)
    (hw : g.Walk start fs goal)
    (hestimate : ∀ ps qs n value, fs = ps ++ qs → g.Walk start ps n → n ≠ start → n ≠ goal → g.value? n = some value →
      ∃ x ≤ price qs, estimate value = .number x) : s.toEReal ≤ price fs := by
  have hentries := OpenSet.pop?_eq_some.mp hpop
  have hs_sound : Amount.Sound s := h.sound hpay hs
  obtain ⟨-, s', s₀, value', hs', hvalue', hs₀, hle, hk⟩ := h.entry k goal (hentries ▸ List.mem_cons_self)
  obtain rfl : s' = s := Option.some.inj (hs'.symm.trans hs)
  obtain rfl : value' = target := Option.some.inj (hvalue'.symm.trans htarget)
  obtain ⟨ps, qs, n, r, hfs, hps, hn, hr, ⟨value, hvalue, hmem⟩, hrle⟩ :=
    h.waiting_on_walk hpay (Graph.lt_size_of_value? htarget) hw
  have hr_sound : Amount.Sound r := h.sound hpay hr
  have hps_sound : Amount.Sound (total .utility ps) := sound_total hpay hps Lawful.sound_zero
  have hrprice : r.toEReal ≤ price ps := total_eq_price hpay hps ▸ (hr_sound.atMost_iff hps_sound).mp hrle
  have hqs : 0 ≤ price qs := nonneg_price hpay (hps.rest (hfs ▸ hw))
  rw [hfs, price_append]
  by_cases hgoal : n = goal
  · obtain rfl : r = s' := Option.some.inj ((hgoal ▸ hr).symm.trans hs)
    exact hrprice.trans (le_add_of_nonneg_right hqs)
  · obtain ⟨x, hx, hvalue_eq⟩ := hestimate ps qs n value hfs hps hn hgoal hvalue
    obtain ⟨y, hy, rfl⟩ := hr_sound
    by_cases hopposite : y = ⊤ ∧ x = ⊥
    -- With an infinite score the walk has an infinite price.
    · have htop : price ps = ⊤ := top_le_iff.mp (hopposite.1 ▸ hrprice)
      rw [htop, EReal.top_add_of_ne_bot (Amount.ne_bot hqs)]
      exact le_top
    · have hsum : add (.number y) (estimate value) = Amount.number (y + x) := by
        rw [hvalue_eq]
        exact if_neg fun hinf => hinf.elim hopposite fun hinf => Amount.ne_bot hy hinf.1
      have hfirst : notAfter k (.number (y + x)) = true := by
        rw [hentries, hsum] at hmem
        rcases List.mem_cons.mp hmem with heq | hmem
        · exact absurd (congrArg Prod.snd heq) hgoal
        · exact (hordered.first hpop).2 _ hmem
      rcases hends with hzero | hundefined
      · have hle' := (hs_sound.atMost_iff hs₀).mp hle
        obtain ⟨w, hw, rfl⟩ := hs₀
        rw [hk, hzero, Amount.add_number (Amount.ne_bot hw) EReal.zero_ne_bot] at hfirst
        calc s'.toEReal ≤ w := hle'
          _ = w + 0 := (add_zero w).symm
          _ ≤ y + x := of_decide_eq_true hfirst
          _ ≤ price ps + price qs := add_le_add hrprice hx
      -- A goal without an estimate comes last, so it is not taken before that vertex.
      · obtain ⟨w, -, rfl⟩ := hs₀
        rw [hk, hundefined] at hfirst
        cases hfirst

/-- In exact amounts a search finds a path that costs no more than any walk along which no estimate exceeds what
    remains. Off that walk estimates may be anything, and the goal may even have none. -/
theorem within_walk_bound (g : Graph ν Amount) (start goal : Nat) (estimate : ν → ν → Amount) {target : ν}
    (hpay : Payable g .utility) (hne : start ≠ goal) (htarget : g.value? goal = some target)
    (hends : estimate target target = .number 0 ∨ estimate target target = .undefined) (hw : g.Walk start fs goal)
    (hestimate : ∀ ps qs n value, fs = ps ++ qs → g.Walk start ps n → n ≠ start → n ≠ goal → g.value? n = some value →
      ∃ x ≤ price qs, estimate value target = .number x) :
    ∃ bound es, (∀ rounds, bound < rounds →
        within rounds g start goal .utility estimate = .found (visited start es) (es.map (·.action))) ∧
      g.Walk start es goal ∧ (visited start es).Nodup ∧ price es ≤ price fs := by
  have hstart : start < g.size := by
    cases fs with
    | nil => exact absurd hw hne
    | cons f fs => exact Graph.lt_size_of_mem_successors hw.1
  obtain ⟨q, r, hq, hordered, hend, hwithin⟩ := within_ends hpay estimate hstart htarget hne
  rcases hend with ⟨hpop, -⟩ | ⟨k, rest, hpop, rfl⟩
  · exact absurd ⟨fs, hw⟩ (hq.not_reaches hpop (Graph.lt_size_of_value? htarget))
  · obtain ⟨s, hs⟩ := hq.score_of_pop hpop
    obtain ⟨es, hes, hroute⟩ := hq.route_eq hs
    have htotal : AtMost (total .utility es) s := hes.total_atMost hpay hq.toConsistent
    have htotal_sound : Amount.Sound (total .utility es) := sound_total hpay hes.walk Lawful.sound_zero
    refine ⟨_, es, fun rounds hr => (hwithin rounds hr).trans hroute, hes.walk, hes.nodup, ?_⟩
    calc price es = (total .utility es).toEReal := (total_eq_price hpay hes.walk).symm
      _ ≤ s.toEReal := (htotal_sound.atMost_iff (hq.sound hpay hs)).mp htotal
      _ ≤ price fs := hq.score_le_price hpay hordered hpop hs htarget hends hw hestimate

/-- A way of two edges, where the estimate at the vertex between them is at most the second edge. -/
theorem within_detour_bound (g : Graph ν Amount) (start goal : Nat) (estimate : ν → ν → Amount) {target middle : ν}
    {e f : Edge Amount} (hpay : Payable g .utility) (hne : start ≠ goal) (htarget : g.value? goal = some target)
    (hends : estimate target target = .number 0 ∨ estimate target target = .undefined)
    (hw : g.Walk start [e, f] goal) (hmiddle : g.value? e.target = some middle)
    (hestimate : ∃ x ≤ f.utility.toEReal, estimate middle target = .number x) :
    ∃ bound es, (∀ rounds, bound < rounds →
        within rounds g start goal .utility estimate = .found (visited start es) (es.map (·.action))) ∧
      g.Walk start es goal ∧ (visited start es).Nodup ∧ price es ≤ price [e, f] := by
  refine within_walk_bound g start goal estimate hpay hne htarget hends hw ?_
  intro before after n value hsplit hbefore hn hn' hvalue
  match before with
  | [] => exact absurd hbefore.symm hn
  | [e'] =>
    obtain ⟨rfl, rfl⟩ := List.cons.inj hsplit
    obtain rfl : e.target = n := hbefore.2
    obtain rfl := Option.some.inj (hmiddle.symm.trans hvalue)
    obtain ⟨x, hx, heq⟩ := hestimate
    exact ⟨x, hx.trans (add_zero f.utility.toEReal).ge, heq⟩
  | e' :: f' :: rest =>
    have hlength := congrArg List.length hsplit
    simp only [List.length_append, List.length_cons, List.length_nil] at hlength
    obtain rfl : rest = [] := List.length_eq_zero_iff.mp (by omega)
    obtain rfl : after = [] := List.length_eq_zero_iff.mp (by simpa using hlength)
    rw [List.append_nil] at hsplit
    rw [← hsplit] at hbefore
    exact absurd (hbefore.2.2.symm.trans hw.2.2) hn'

end Search
end Intendant

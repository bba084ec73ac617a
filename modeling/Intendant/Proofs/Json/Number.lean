import Intendant.Proofs.Decimal.Nearest
import Intendant.Proofs.Decimal.Shortest
import Intendant.Proofs.Json.Token

/-! # Numbers read back

The numbers of a document are 64-bit integers and finite doubles (`Literal.value?_sound`), and the text of each of them is
a literal (`Number.Sound.spelled`). Integers read back, and so do doubles where the reading takes the double that is
nearest to a literal (`Reading.nearest_exact`). For doubles this puts three things together: the layout is a literal of
the decimal that was picked, that decimal is nearest to the double, and reading takes the nearest double. -/

namespace Intendant.Json

/-- A number that a document can hold. -/
def Number.Sound : Number → Prop
  | .int n => -2 ^ 63 ≤ n ∧ n < 2 ^ 64
  | .real x => x.isFinite = true

namespace Token

/-! ### Digits -/

/-- Digits, at least one. -/
structure Run (ds : List Char) : Prop where
  ne_nil : ds ≠ []
  isDigit : ∀ c ∈ ds, c.isDigit = true

theorem run_digits (n : Nat) : Run (Decimal.digits n) :=
  ⟨Nat.toDigits_ne_nil, fun _ => Nat.isDigit_of_mem_toDigits (by decide) (by decide)⟩

theorem run_zeros (k : Nat) : ∀ c ∈ List.replicate k '0', c.isDigit = true := by
  intro c hc
  rw [List.eq_of_mem_replicate hc]
  rfl

theorem Run.append {ds es : List Char} (h : Run ds) (hes : ∀ c ∈ es, c.isDigit = true) : Run (ds ++ es) :=
  ⟨by simp [h.ne_nil], fun c hc => (List.mem_append.mp hc).elim (h.isDigit c) (hes c)⟩

theorem Run.prepend {ds es : List Char} (h : Run ds) (hes : ∀ c ∈ es, c.isDigit = true) : Run (es ++ ds) :=
  ⟨by simp [h.ne_nil], fun c hc => (List.mem_append.mp hc).elim (hes c) (h.isDigit c)⟩

theorem digits_head {n : Nat} (hn : 0 < n) : '0' ∉ (Decimal.digits n).head? := by
  induction n using Nat.strong_induction_on with
  | _ n ih =>
    unfold Decimal.digits at ih ⊢
    by_cases hlt : n < 10
    · rw [Nat.toDigits_of_lt_base hlt]
      simpa using hn.ne'
    · rw [Nat.toDigits_of_base_le (by decide) (by omega), List.head?_append_of_ne_nil _ Nat.toDigits_ne_nil]
      exact ih (n / 10) (by omega) (by omega)

theorem digitsValue_digits (n : Nat) : digitsValue (Decimal.digits n) = n := Nat.ofDigitChars_ten_toDigits

theorem digitsValue_append_zeros (ds : List Char) (k : Nat) :
    digitsValue (ds ++ List.replicate k '0') = 10 ^ k * digitsValue ds := by
  rw [digitsValue, Nat.ofDigitChars_append, Nat.ofDigitChars_replicate_zero]
  rfl

theorem digitsValue_zeros_append (ds : List Char) (k : Nat) :
    digitsValue (List.replicate k '0' ++ ds) = digitsValue ds := by
  rw [digitsValue, Nat.ofDigitChars_append, Nat.ofDigitChars_replicate_zero, Nat.mul_zero]
  rfl

variable {cs rest ds : List Char}

theorem digits?_run (h : Run ds) (hrest : ∀ c ∈ rest.head?, c.isDigit = false) : digits? (ds ++ rest) = some (ds, rest) := by
  rw [digits?, spanDigits_of_digits h.isDigit hrest, if_neg h.ne_nil]

theorem digits?_all (h : Run ds) : digits? ds = some (ds, []) := by
  have hnil : ∀ c ∈ ([] : List Char).head?, c.isDigit = false := by simp
  simpa using digits?_run h hnil

/-- Digits that may stand before a point: a leading zero stands alone. -/
def Whole (ds : List Char) : Prop := ds = ['0'] ∨ Run ds ∧ '0' ∉ ds.head?

theorem whole_digits (n : Nat) : Whole (Decimal.digits n) := by
  rcases Nat.eq_zero_or_pos n with rfl | hn
  · exact Or.inl (Nat.toDigits_zero 10)
  · exact Or.inr ⟨run_digits n, digits_head hn⟩

theorem whole?_whole (h : Whole ds) (hrest : ∀ c ∈ rest.head?, c.isDigit = false) : whole? (ds ++ rest) = some (ds, rest) := by
  rcases h with rfl | ⟨hrun, hhead⟩
  · rfl
  · rw [whole?_eq (by rwa [List.head?_append_of_ne_nil _ hrun.ne_nil]), digits?_run hrun hrest]

/-! ### Integers -/

/-- What follows a sign is a literal with that sign. -/
theorem literal?_signed {negative : Bool} {l : Literal} (h : unsigned? negative cs = some (l, rest)) :
    literal? ((if negative then ['-'] else []) ++ cs) = some (l, rest) := by
  cases negative with
  | true => exact h
  | false =>
    have hminus : '-' ∉ cs.head? := by
      intro hminus
      simp only [unsigned?, Option.bind_eq_bind, Option.bind_eq_some_iff] at h
      obtain ⟨⟨w, cs₁⟩, hw, -⟩ := h
      obtain ⟨c, r, rfl, hc⟩ := whole?_head hw
      obtain rfl : c = '-' := by simpa using hminus
      cases hc
    exact (literal?_eq hminus).trans h

theorem literal?_int (n : Int) :
    literal? (numberText (.int n)) = some (⟨decide (n < 0), Decimal.digits n.natAbs, [], none⟩, []) := by
  have hnil : ∀ c ∈ ([] : List Char).head?, c.isDigit = false := by simp
  have hwhole := whole?_whole (whole_digits n.natAbs) hnil
  rw [List.append_nil] at hwhole
  have hunsigned : unsigned? (decide (n < 0)) (Decimal.digits n.natAbs) =
      some (⟨decide (n < 0), Decimal.digits n.natAbs, [], none⟩, []) := by
    rw [unsigned?, hwhole]
    rfl
  simpa [numberText] using literal?_signed hunsigned

end Token

/-- Integers are read as they were, however doubles are read. -/
theorem Number.reread?_int [Reading] {n : Int} (h : (Number.int n).Sound) : (Number.int n).reread? = some (.int n) := by
  obtain ⟨hlo, hhi⟩ := h
  have hpow : Nat.pow 2 63 = 9223372036854775808 ∧ Nat.pow 2 64 = 18446744073709551616 := ⟨rfl, rfl⟩
  rw [Number.reread?, Token.literal?_int, Option.bind_some]
  simp only [Token.Literal.value?, Token.digitsValue_digits, decide_eq_true_eq, hpow]
  rw [if_pos ⟨trivial, trivial, by split <;> omega⟩]
  congr 2
  split <;> omega

namespace Token

/-! ### Doubles -/

/-- The power of ten that all digits of a literal are scaled by. -/
def Literal.scale (l : Literal) : Int := l.power - l.fraction.length

/-- A literal with a fraction or an exponent that denotes a magnitude. -/
structure Denotes (l : Literal) (v : ℚ) : Prop where
  real : l.fraction ≠ [] ∨ l.exponent ≠ none
  value : (digitsValue (l.whole ++ l.fraction) : ℚ) * 10 ^ l.scale = v

theorem value?_cases [Reading] (l : Literal) :
    (l.fraction = [] ∧ l.exponent = none ∧
      (if l.negative then 0 < digitsValue l.whole ∧ digitsValue l.whole ≤ Nat.pow 2 63
        else digitsValue l.whole < Nat.pow 2 64) ∧
      l.value? = some (.int (if l.negative then -(digitsValue l.whole : Int) else digitsValue l.whole))) ∨
    l.value? = (Reading.double? l).map .real := by
  by_cases hint : l.fraction = [] ∧ l.exponent = none ∧
      (if l.negative then 0 < digitsValue l.whole ∧ digitsValue l.whole ≤ Nat.pow 2 63
        else digitsValue l.whole < Nat.pow 2 64)
  · exact Or.inl ⟨hint.1, hint.2.1, hint.2.2, if_pos hint⟩
  · exact Or.inr (if_neg hint)

theorem value?_of_real [Reading] {l : Literal} (h : l.fraction ≠ [] ∨ l.exponent ≠ none) :
    l.value? = (Reading.double? l).map .real := by
  rcases value?_cases l with ⟨hfraction, hexponent, -⟩ | hreal
  · rcases h with h | h
    · exact absurd hfraction h
    · exact absurd hexponent h
  · exact hreal

theorem unsigned?_point (negative : Bool) {w f : List Char} (hw : Whole w) (hf : Run f) :
    unsigned? negative (w ++ '.' :: f) = some (⟨negative, w, f, none⟩, []) := by
  rw [unsigned?, whole?_whole hw (by simp)]
  simp only [Option.bind_eq_bind, Option.bind_some, fraction?_point, digits?_all hf]
  rfl

theorem exponentText_eq (e : Int) : Decimal.exponentText true e = signChar (decide (e < 0)) :: Decimal.digits e.natAbs := by
  unfold Decimal.exponentText
  by_cases he : e < 0
  · rw [if_pos he, decide_eq_true he]
    rfl
  · rw [if_neg he, decide_eq_false he]
    rfl

theorem exponent?_text (e : Int) :
    exponent? ('e' :: Decimal.exponentText true e) = some (some (decide (e < 0), Decimal.digits e.natAbs), []) := by
  rw [exponentText_eq, exponent?_signed (Or.inl rfl), digits?_all (run_digits e.natAbs)]
  rfl

theorem unsigned?_exponent (negative : Bool) {w : List Char} (hw : Whole w) (e : Int) :
    unsigned? negative (w ++ 'e' :: Decimal.exponentText true e) =
      some (⟨negative, w, [], some (decide (e < 0), Decimal.digits e.natAbs)⟩, []) := by
  have hfraction : fraction? ('e' :: Decimal.exponentText true e) = some ([], 'e' :: Decimal.exponentText true e) :=
    fraction?_eq (by simp)
  rw [unsigned?, whole?_whole hw (by simp)]
  simp only [Option.bind_eq_bind, Option.bind_some, hfraction, exponent?_text]
  rfl

theorem unsigned?_point_exponent (negative : Bool) {w f : List Char} (hw : Whole w) (hf : Run f) (e : Int) :
    unsigned? negative (w ++ '.' :: f ++ 'e' :: Decimal.exponentText true e) =
      some (⟨negative, w, f, some (decide (e < 0), Decimal.digits e.natAbs)⟩, []) := by
  have hfraction : digits? (f ++ 'e' :: Decimal.exponentText true e) = some (f, 'e' :: Decimal.exponentText true e) :=
    digits?_run hf (by simp)
  rw [List.append_assoc, List.cons_append, unsigned?, whole?_whole hw (by simp)]
  simp only [Option.bind_eq_bind, Option.bind_some, fraction?_point, hfraction, exponent?_text]
  rfl

/-- A text that is read whole as the literal of a magnitude, with the sign that stands before it. -/
def Spells (negative : Bool) (text : List Char) (v : ℚ) : Prop :=
  ∃ l, unsigned? negative text = some (l, []) ∧ l.negative = negative ∧ Denotes l v

/-- The digits of a positive number. -/
structure DigitsOf (c : Nat) (ds : List Char) : Prop where
  run : Run ds
  head : '0' ∉ ds.head?
  value : digitsValue ds = c

theorem digitsOf_digits {c : Nat} (hc : 0 < c) : DigitsOf c (Decimal.digits c) :=
  ⟨run_digits c, digits_head hc, digitsValue_digits c⟩

/-- All digits stand after the point. -/
theorem spells_after_point (negative : Bool) {c : Nat} (h : DigitsOf c ds) (j : Nat) :
    Spells negative (['0', '.'] ++ List.replicate j '0' ++ ds) (c * 10 ^ (-(j : Int) - ds.length)) := by
  have hfraction : Run (List.replicate j '0' ++ ds) := h.run.prepend (run_zeros j)
  have htext : ['0', '.'] ++ List.replicate j '0' ++ ds = ['0'] ++ '.' :: (List.replicate j '0' ++ ds) := by simp
  rw [htext]
  refine ⟨_, unsigned?_point negative (Or.inl rfl) hfraction, rfl, Or.inl hfraction.ne_nil, ?_⟩
  have hdigits : digitsValue (['0'] ++ (List.replicate j '0' ++ ds)) = c := by
    rw [← List.append_assoc, List.singleton_append, ← List.replicate_succ, digitsValue_zeros_append, h.value]
  have hscale : Literal.scale ⟨negative, ['0'], List.replicate j '0' ++ ds, none⟩ = -(j : Int) - ds.length := by
    simp only [Literal.scale, Literal.power, List.length_append, List.length_replicate]
    omega
  rw [hdigits, hscale]

/-- All digits stand before the point. -/
theorem spells_before_point (negative : Bool) {c : Nat} (h : DigitsOf c ds) (j : Nat) :
    Spells negative (ds ++ List.replicate j '0' ++ ['.', '0']) (c * 10 ^ (j : Int)) := by
  have hwhole : Whole (ds ++ List.replicate j '0') :=
    Or.inr ⟨h.run.append (run_zeros j), by rw [List.head?_append_of_ne_nil _ h.run.ne_nil]; exact h.head⟩
  have hfraction : Run ['0'] := ⟨by simp, run_zeros 1⟩
  refine ⟨_, unsigned?_point negative hwhole hfraction, rfl, Or.inl hfraction.ne_nil, ?_⟩
  have hdigits : digitsValue ((ds ++ List.replicate j '0') ++ ['0']) = 10 ^ (j + 1) * c := by
    have hzeros : List.replicate j '0' ++ ['0'] = List.replicate (j + 1) '0' := List.replicate_succ'.symm
    rw [List.append_assoc, hzeros, digitsValue_append_zeros, h.value]
  have hscale : Literal.scale ⟨negative, ds ++ List.replicate j '0', ['0'], none⟩ = -1 := rfl
  have hexp : (j : Int) = (j + 1 : Nat) + -1 := by omega
  rw [hdigits, hscale, hexp, zpow_add₀ (by norm_num), zpow_natCast]
  push_cast
  ring

/-- The point stands among the digits. -/
theorem spells_around_point (negative : Bool) {c : Nat} (h : DigitsOf c ds) {j : Nat} (hpos : 0 < j) (hj : j < ds.length) :
    Spells negative (ds.take j ++ '.' :: ds.drop j) (c * 10 ^ ((j : Int) - ds.length)) := by
  have hwhole : Run (ds.take j) := by
    refine ⟨?_, fun d hd => h.run.isDigit d (List.mem_of_mem_take hd)⟩
    rw [ne_eq, List.take_eq_nil_iff, not_or]
    exact ⟨by omega, h.run.ne_nil⟩
  have hhead : '0' ∉ (ds.take j).head? := by
    rw [List.head?_take, if_neg (by omega)]
    exact h.head
  have hfraction : Run (ds.drop j) := by
    refine ⟨?_, fun d hd => h.run.isDigit d (List.mem_of_mem_drop hd)⟩
    rw [ne_eq, List.drop_eq_nil_iff]
    omega
  refine ⟨_, unsigned?_point negative (Or.inr ⟨hwhole, hhead⟩) hfraction, rfl, Or.inl hfraction.ne_nil, ?_⟩
  have hdigits : digitsValue (ds.take j ++ ds.drop j) = c := by rw [List.take_append_drop, h.value]
  have hscale : Literal.scale ⟨negative, ds.take j, ds.drop j, none⟩ = (j : Int) - ds.length := by
    simp only [Literal.scale, Literal.power, List.length_drop]
    omega
  rw [hdigits, hscale]

theorem spells_positional (negative : Bool) {c : Nat} (h : DigitsOf c ds) (k : Int) :
    Spells negative (Decimal.positional ds k) (c * 10 ^ (k - ds.length)) := by
  unfold Decimal.positional
  split_ifs with hsmall hlarge
  · have hk : k = -((-k).toNat : Int) := by omega
    have hspells := spells_after_point negative h (-k).toNat
    rwa [← hk] at hspells
  · have hk : k - ds.length = ((k.toNat - ds.length : Nat) : Int) := by omega
    rw [hk]
    exact spells_before_point negative h _
  · have hk : k = (k.toNat : Int) := by omega
    have hspells := spells_around_point negative h (j := k.toNat) (by omega) (by omega)
    rwa [← hk] at hspells

theorem spells_scientific (negative : Bool) {c : Nat} (h : DigitsOf c ds) (k : Int) :
    Spells negative (Decimal.scientific true ds k) (c * 10 ^ (k - ds.length)) := by
  have hexponent : (if decide (k - 1 < 0) = true then -(digitsValue (Decimal.digits (k - 1).natAbs) : Int)
      else digitsValue (Decimal.digits (k - 1).natAbs)) = k - 1 := by
    rw [digitsValue_digits]
    by_cases hk : k - 1 < 0
    · rw [if_pos (decide_eq_true hk)]
      omega
    · rw [if_neg (by simpa using hk)]
      omega
  -- A single digit is written without a point.
  match ds, h with
  | [], h => exact absurd rfl h.run.ne_nil
  | [d], h =>
    refine ⟨_, unsigned?_exponent negative (Or.inr ⟨h.run, h.head⟩) (k - 1), rfl, Or.inr (by simp), ?_⟩
    simp only [Literal.scale, Literal.power, hexponent, List.append_nil, h.value]
    simp
  | d :: e :: rest, h =>
    have hwhole : Whole [d] :=
      Or.inr ⟨⟨by simp, fun x hx => h.run.isDigit x (by simp_all)⟩, by simpa using h.head⟩
    have hfraction : Run (e :: rest) := ⟨by simp, fun x hx => h.run.isDigit x (.tail _ hx)⟩
    refine ⟨_, unsigned?_point_exponent negative hwhole hfraction (k - 1), rfl, Or.inl hfraction.ne_nil, ?_⟩
    simp only [Literal.scale, Literal.power, hexponent, List.singleton_append, h.value]
    congr 2
    simp only [List.length_cons]
    omega

theorem spells_magnitude (negative : Bool) {s : Decimal.Scaled} (hs : 0 < s.coefficient) :
    Spells negative (wireLayout.magnitude s) (s.coefficient * 10 ^ s.exponent) := by
  have hdigits := digitsOf_digits hs
  have hk : s.exponent + (Decimal.digits s.coefficient).length - (Decimal.digits s.coefficient).length = s.exponent := by
    omega
  rw [Decimal.Layout.magnitude, if_neg hs.ne']
  dsimp only
  split
  · have h := spells_positional negative hdigits (s.exponent + (Decimal.digits s.coefficient).length)
    rwa [hk] at h
  · have h := spells_scientific negative hdigits (s.exponent + (Decimal.digits s.coefficient).length)
    rwa [hk] at h

end Token

theorem numberText_real {x : Float} (hx : x.isFinite = true) :
    Token.numberText (.real x) = (if Decimal.isNegative x then ['-'] else []) ++
      wireLayout.magnitude (Decimal.shortest .even x) := by
  rw [Token.numberText, Decimal.Layout.text, if_neg (Bool.eq_false_iff.mp (Double.not_isNaN hx)),
    if_neg (Bool.eq_false_iff.mp (Double.not_isInf hx))]
  rfl

/-- The text of a finite double is a literal, to which no double is nearer. -/
theorem literal?_real {x : Float} (hx : x.isFinite = true) :
    ∃ l, Token.literal? (Token.numberText (.real x)) = some (l, []) ∧ (l.fraction ≠ [] ∨ l.exponent ≠ none) ∧
      Decimal.read? l.negative (Token.digitsValue (l.whole ++ l.fraction)) l.scale = some x := by
  have hfinite : (Double.unpacked x).isFinite = true := hx
  have hfields := Double.fields_unpacked hx
  have htext := numberText_real hx
  cases h : Double.unpacked x with
  | infinity s =>
    rw [h] at hfinite
    cases hfinite
  | notANumber =>
    rw [h] at hfinite
    cases hfinite
  | zero s =>
    rw [h, Double.fields, Prod.mk.injEq] at hfields
    rw [Decimal.shortest_zero h] at htext
    have hsign : Double.unpacked x = .zero (if Decimal.isNegative x then .negative else .positive) :=
      h.trans (congrArg _ hfields.1)
    have hzero : Token.Run ['0'] := ⟨by simp, by simp⟩
    refine ⟨_, htext ▸ Token.literal?_signed (Token.unsigned?_point _ (Or.inl rfl) hzero), Or.inl hzero.ne_nil, ?_⟩
    show Decimal.read? (Decimal.isNegative x) 0 _ = _
    exact Decimal.read?_zero _ _ hsign
  | finite s m e hm =>
    have hc := Double.canonical_of_unpacked h
    have hnear := Decimal.shortest_near hm h .even
    have hsign : Double.unpacked x = .finite (if Decimal.isNegative x then .negative else .positive) m e hm := by
      have hs : s = Double.signOf x := by
        rw [h, Double.fields] at hfields
        split at hfields <;> exact (Prod.mk.inj hfields).1
      rw [h, hs]
      rfl
    -- The text spells a decimal that is nearest to the double, and such a decimal reads as the double.
    obtain ⟨l, hl, hnegative, hreal, hvalue⟩ := Token.spells_magnitude (Decimal.isNegative x) (Decimal.pos_of_near hm hc hnear)
    refine ⟨l, htext ▸ Token.literal?_signed hl, hreal, ?_⟩
    rw [← hvalue] at hnear
    rw [hnegative]
    exact Decimal.read?_eq _ (Decimal.pos_of_near hm hc hnear) hm hc (Double.exponent_le_of_unpacked h) hnear hsign

/-- Every number that a document can hold is written as a literal. -/
theorem Number.Sound.spelled {n : Number} (h : n.Sound) : n.Spelled := by
  cases n with
  | int n => exact ⟨_, Token.literal?_int n⟩
  | real x =>
    obtain ⟨l, hl, -⟩ := literal?_real h
    exact ⟨l, hl⟩

theorem Number.reread?_real [Reading] {x : Float} (hx : x.isFinite = true) :
    (Number.real x).reread? = (Reading.again? x).map .real := by
  obtain ⟨l, hl, hreal, -⟩ := literal?_real hx
  rw [reread?, Reading.again?, hl, Option.bind_some, Option.bind_some, Token.value?_of_real hreal]

/-- The reading that takes the double nearest to a literal. -/
@[reducible]
def Reading.nearest : Reading where
  double? l := Decimal.read? l.negative (Token.digitsValue (l.whole ++ l.fraction)) l.scale
  isFinite_of_double? := Decimal.isFinite_of_read?

theorem Reading.nearest_exact : @Reading.Exact .nearest := by
  intro x hx
  let _ : Reading := .nearest
  obtain ⟨l, hl, -, hread⟩ := literal?_real hx
  rw [ReadsBack, again?, hl, Option.bind_some]
  exact hread

/-- Whatever number a literal denotes can be held by a document. -/
theorem Token.Literal.value?_sound [Reading] {l : Token.Literal} {n : Number} (h : l.value? = some n) : n.Sound := by
  rcases Token.value?_cases l with ⟨-, -, hrange, hint⟩ | hreal
  · rw [hint] at h
    injection h with h
    subst h
    have hpow : Nat.pow 2 63 = 9223372036854775808 ∧ Nat.pow 2 64 = 18446744073709551616 := ⟨rfl, rfl⟩
    rw [hpow.1, hpow.2] at hrange
    show _ ∧ _
    cases hnegative : l.negative <;> simp only [hnegative, Bool.false_eq_true, if_true, if_false] at hrange ⊢ <;> omega
  · rw [hreal] at h
    obtain ⟨x, hx, rfl⟩ := Option.map_eq_some_iff.mp h
    exact Reading.isFinite_of_double? hx

/-- An integer that a document can hold is read as a finite double where a double is asked for. -/
theorem Number.isFinite_ofInt {n : Int} (h : (Number.int n).Sound) : (Float.ofInt n).isFinite = true := by
  obtain ⟨hlo, hhi⟩ := h
  cases n with
  | ofNat n =>
    rw [Int.ofNat_eq_natCast] at hhi
    exact Double.isFinite_ofNat (by omega)
  | negSucc n =>
    rw [Int.negSucc_eq] at hlo
    exact Double.isFinite_neg (Double.isFinite_ofNat (by omega))

end Intendant.Json

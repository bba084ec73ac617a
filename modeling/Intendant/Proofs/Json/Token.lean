import Intendant.Json.Reader
import Intendant.Json.Writer
import Mathlib.Data.List.Chain
import Mathlib.Tactic.SplitIfs

/-! # Tokens read back

The text of a token, with anything after it that cannot carry the token on, is read as that token, but for a number:
which one it is read as is up to the reading of literals (`Token.reread`, `next?_text`). So the text of a list of tokens
in which no two numbers meet is cut into as many tokens (`ofChars?_text`). -/

namespace Intendant.Json

/-- The text of a number is a literal. -/
def Number.Spelled (n : Number) : Prop := ∃ l, Token.literal? (Token.numberText n) = some (l, [])

/-- The number that the text of a number is read as, if any. -/
def Number.reread? [Reading] (n : Number) : Option Number :=
  (Token.literal? (Token.numberText n)).bind fun l => l.1.value?

/-- The double that the text of a double is read as, if any. -/
def Reading.again? [Reading] (x : Float) : Option Float :=
  (Token.literal? (Token.numberText (.real x))).bind fun l => double? l.1

/-- A double is read as itself when it was written. -/
def Reading.ReadsBack [Reading] (x : Float) : Prop := again? x = some x

instance [Reading] (x : Float) : Decidable (Reading.ReadsBack x) := inferInstanceAs (Decidable (Reading.again? x = some x))

/-- Every finite double is read as itself when it was written. -/
def Reading.Exact [Reading] : Prop := ∀ x : Float, x.isFinite = true → ReadsBack x

namespace Token

/-! ### Text -/

theorem hexNumber?_digits : ∀ n < 32, Text.hexNumber? ['0', '0', hexDigit (n / 16), hexDigit (n % 16)] = some n := by
  decide

theorem join?_char (c : Char) (ps : List Piece) : join? (.char c :: ps) = (join? ps).map (c :: ·) := rfl

theorem join?_unit {n : Nat} (hn : n < 0xd800) (ps : List Piece) :
    join? (.unit n :: ps) = (join? ps).map (Char.ofNat n :: ·) := by
  have hhigh : isHigh n = false := by simp [isHigh]; omega
  have hlow : isLow n = false := by simp [isLow]; omega
  rcases ps with _ | ⟨_ | l, ps⟩ <;> simp [join?, hhigh, hlow]

theorem pieces?_short {c e : Char} (hu : c ≠ 'u') (he : shortEscape? c = some e) (rest : List Char) :
    pieces? ('\\' :: c :: rest) = (pieces? rest).map fun r => (.char e :: r.1, r.2) := by
  rw [pieces?]
  · rw [he]
    cases pieces? rest <;> rfl
  · simp [hu]

theorem pieces?_plain {c : Char} (hquote : c ≠ '"') (hslash : c ≠ '\\') (hcontrol : ¬ c.toNat < 0x20) (rest : List Char) :
    pieces? (c :: rest) = (pieces? rest).map fun r => (.char c :: r.1, r.2) := by
  rw [pieces?]
  · rw [if_neg hcontrol]
    cases pieces? rest <;> rfl
  · exact hquote
  · intros; contradiction
  · intros; contradiction

/-- The text of a character is read as one piece, which stands for the character. -/
theorem pieces?_escape (c : Char) :
    ∃ p, (∀ rest, pieces? (escape c ++ rest) = (pieces? rest).map fun r => (p :: r.1, r.2)) ∧
      ∀ ps, join? (p :: ps) = (join? ps).map (c :: ·) := by
  unfold escape
  split_ifs with hquote hslash h1 h2 h3 h4 h5 hcontrol
  · subst hquote
    exact ⟨.char '"', pieces?_short (by decide) rfl, join?_char _⟩
  · subst hslash
    exact ⟨.char '\\', pieces?_short (by decide) rfl, join?_char _⟩
  · subst h1
    exact ⟨.char '\x08', pieces?_short (by decide) rfl, join?_char _⟩
  · subst h2
    exact ⟨.char '\t', pieces?_short (by decide) rfl, join?_char _⟩
  · subst h3
    exact ⟨.char '\n', pieces?_short (by decide) rfl, join?_char _⟩
  · subst h4
    exact ⟨.char '\x0c', pieces?_short (by decide) rfl, join?_char _⟩
  · subst h5
    exact ⟨.char '\r', pieces?_short (by decide) rfl, join?_char _⟩
  · refine ⟨.unit c.toNat, fun rest => ?_, fun ps => ?_⟩
    · have hunit : unit? '0' '0' (hexDigit (c.toNat / 16)) (hexDigit (c.toNat % 16)) = some c.toNat :=
        hexNumber?_digits _ hcontrol
      simp only [List.cons_append, List.nil_append, pieces?, hunit]
      cases pieces? rest <;> rfl
    · rw [join?_unit (by omega), Char.ofNat_toNat]
  · exact ⟨.char c, pieces?_plain hquote hslash hcontrol, join?_char _⟩

theorem pieces?_quoted (s rest : List Char) :
    ∃ ps, pieces? (s.flatMap escape ++ '"' :: rest) = some (ps, rest) ∧ join? ps = some s := by
  induction s with
  | nil => exact ⟨[], by simp [pieces?], rfl⟩
  | cons c s ih =>
    obtain ⟨ps, hps, hjoin⟩ := ih
    obtain ⟨p, hp, hpjoin⟩ := pieces?_escape c
    refine ⟨p :: ps, ?_, ?_⟩
    · rw [List.flatMap_cons, List.append_assoc, hp, hps]
      rfl
    · rw [hpjoin, hjoin]
      rfl

/-! ### Numbers -/

/-- A text that does not carry on a number. -/
def Clear (rest : List Char) : Prop := ∀ c ∈ rest.head?, c.isDigit = false ∧ c ≠ '.' ∧ c ≠ 'e' ∧ c ≠ 'E'

variable {cs rest ds cs' : List Char}

theorem spanDigits_of_digits (hcs : ∀ c ∈ cs, c.isDigit = true) (hrest : ∀ c ∈ rest.head?, c.isDigit = false) :
    spanDigits (cs ++ rest) = (cs, rest) := by
  have htake : rest.takeWhile Char.isDigit = [] := by
    cases rest with
    | nil => rfl
    | cons c rest => exact List.takeWhile_cons_of_neg (by simpa using hrest c rfl)
  have hdrop : rest.dropWhile Char.isDigit = rest := by
    cases rest with
    | nil => rfl
    | cons c rest => exact List.dropWhile_cons_of_neg (by simpa using hrest c rfl)
  rw [spanDigits, List.takeWhile_append_of_pos hcs, List.dropWhile_append_of_pos hcs, htake, hdrop, List.append_nil]

theorem spanDigits_append (hrest : Clear rest) (cs : List Char) :
    spanDigits (cs ++ rest) = ((spanDigits cs).1, (spanDigits cs).2 ++ rest) := by
  induction cs with
  | nil => exact spanDigits_of_digits (List.forall_mem_nil _) fun c hc => (hrest c hc).1
  | cons c cs ih =>
    unfold spanDigits at ih ⊢
    by_cases hc : c.isDigit = true
    · simp only [List.cons_append, List.takeWhile_cons, List.dropWhile_cons, hc, if_true]
      simp only [Prod.mk.injEq] at ih
      rw [ih.1, ih.2]
    · simp [hc]

/-- A run of digits that may not be empty. -/
def digits? (cs : List Char) : Option (List Char × List Char) :=
  if (spanDigits cs).1 = [] then none else some (spanDigits cs)

theorem digits?_append (hrest : Clear rest) (h : digits? cs = some (ds, cs')) :
    digits? (cs ++ rest) = some (ds, cs' ++ rest) := by
  unfold digits? at h ⊢
  rw [spanDigits_append hrest]
  split_ifs at h with hnil
  rw [if_neg hnil]
  injection h with h
  rw [h]

theorem digits?_eq (cs : List Char) :
    digits? cs = match spanDigits cs with
      | ([], _) => none
      | (ds, rest) => some (ds, rest) := by
  unfold digits?
  rcases spanDigits cs with ⟨_ | _, _⟩ <;> rfl

theorem whole?_eq (h : '0' ∉ cs.head?) : whole? cs = digits? cs := by
  unfold whole?
  split
  · exact absurd rfl h
  · exact (digits?_eq cs).symm

theorem fraction?_point (cs : List Char) : fraction? ('.' :: cs) = digits? cs := (digits?_eq cs).symm

theorem fraction?_eq (h : '.' ∉ cs.head?) : fraction? cs = some ([], cs) := by
  rw [fraction?]
  rintro rest rfl
  exact h rfl

/-- The sign in front of an exponent. -/
def signChar (negative : Bool) : Char := if negative then '-' else '+'

theorem exponent?_signed {c : Char} (hc : c = 'e' ∨ c = 'E') (negative : Bool) (cs : List Char) :
    exponent? (c :: signChar negative :: cs) = (digits? cs).map fun r => (some (negative, r.1), r.2) := by
  cases negative
  · rw [digits?_eq, signChar, if_neg Bool.false_ne_true, exponent?, if_pos hc]
    rcases spanDigits cs with ⟨_ | _, _⟩ <;> rfl
  · rw [digits?_eq, signChar, if_pos rfl, exponent?, if_pos hc]
    rcases spanDigits cs with ⟨_ | _, _⟩ <;> rfl

theorem exponent?_digits {c : Char} (hc : c = 'e' ∨ c = 'E') (hsign : ∀ negative, signChar negative ∉ cs.head?) :
    exponent? (c :: cs) = (digits? cs).map fun r => (some (false, r.1), r.2) := by
  rw [digits?_eq, exponent?, if_pos hc]
  · rcases spanDigits cs with ⟨_ | _, _⟩ <;> rfl
  · rintro r rfl
    exact hsign true rfl
  · rintro r rfl
    exact hsign false rfl

theorem exponent?_clear (h : ∀ c ∈ cs.head?, c ≠ 'e' ∧ c ≠ 'E') : exponent? cs = some (none, cs) := by
  cases cs with
  | nil => rfl
  | cons c cs =>
    have hc := h c rfl
    unfold exponent?
    exact if_neg (not_or.mpr hc)

/-! ### What follows -/

theorem digits?_ne_nil (h : digits? cs = some (ds, cs')) : cs ≠ [] := by
  rintro rfl
  cases h

theorem whole?_append (hrest : Clear rest) (h : whole? cs = some (ds, cs')) :
    whole? (cs ++ rest) = some (ds, cs' ++ rest) := by
  cases cs with
  | nil => cases h
  | cons c cs =>
    by_cases hc : c = '0'
    · subst hc
      obtain ⟨rfl, rfl⟩ : ['0'] = ds ∧ cs = cs' := by simpa [whole?] using h
      rfl
    · have hhead : ∀ cs : List Char, '0' ∉ (c :: cs).head? := fun cs h => hc (by simpa using h)
      rw [whole?_eq (hhead _)] at h
      rw [List.cons_append, whole?_eq (hhead _)]
      exact digits?_append hrest h

theorem fraction?_append (hrest : Clear rest) (h : fraction? cs = some (ds, cs')) :
    fraction? (cs ++ rest) = some (ds, cs' ++ rest) := by
  cases cs with
  | nil =>
    obtain ⟨rfl, rfl⟩ : [] = ds ∧ [] = cs' := by simpa [fraction?] using h
    exact fraction?_eq fun hpoint => (hrest _ hpoint).2.1 rfl
  | cons c cs =>
    by_cases hc : c = '.'
    · subst hc
      rw [fraction?_point] at h
      rw [List.cons_append, fraction?_point]
      exact digits?_append hrest h
    · have hhead : ∀ cs : List Char, '.' ∉ (c :: cs).head? := fun cs h => hc (by simpa using h)
      rw [fraction?_eq (hhead _)] at h
      obtain ⟨rfl, rfl⟩ : [] = ds ∧ c :: cs = cs' := by simpa using h
      exact fraction?_eq (hhead _)

theorem exponent?_append (hrest : Clear rest) {e : Option (Bool × List Char)} (h : exponent? cs = some (e, cs')) :
    exponent? (cs ++ rest) = some (e, cs' ++ rest) := by
  cases cs with
  | nil =>
    obtain ⟨rfl, rfl⟩ : none = e ∧ [] = cs' := by simpa [exponent?] using h
    exact exponent?_clear fun c hc => (hrest c hc).2.2
  | cons c cs =>
    by_cases hc : c = 'e' ∨ c = 'E'
    · by_cases hsign : ∃ negative, signChar negative ∈ cs.head?
      · obtain ⟨negative, hsign⟩ := hsign
        obtain ⟨cs, rfl⟩ := List.head?_eq_some_iff.mp hsign
        rw [exponent?_signed hc] at h
        obtain ⟨r, hr, heq⟩ := Option.map_eq_some_iff.mp h
        cases heq
        rw [List.cons_append, List.cons_append, exponent?_signed hc, digits?_append hrest hr]
        rfl
      · rw [not_exists] at hsign
        rw [exponent?_digits hc hsign] at h
        obtain ⟨r, hr, heq⟩ := Option.map_eq_some_iff.mp h
        cases heq
        have hne := digits?_ne_nil hr
        rw [List.cons_append, exponent?_digits hc (by rwa [List.head?_append_of_ne_nil _ hne]), digits?_append hrest hr]
        rfl
    · have hclear : ∀ cs : List Char, ∀ d ∈ (c :: cs).head?, d ≠ 'e' ∧ d ≠ 'E' := by
        intro cs d hd
        obtain rfl : c = d := by simpa using hd
        exact not_or.mp hc
      rw [exponent?_clear (hclear _)] at h
      obtain ⟨rfl, rfl⟩ : none = e ∧ c :: cs = cs' := by simpa using h
      exact exponent?_clear (hclear _)

/-- The literals after the sign. -/
def unsigned? (negative : Bool) (cs : List Char) : Option (Literal × List Char) := do
  let (whole, cs) ← whole? cs
  let (fraction, cs) ← fraction? cs
  let (exponent, cs) ← exponent? cs
  return (⟨negative, whole, fraction, exponent⟩, cs)

theorem literal?_eq (h : '-' ∉ cs.head?) : literal? cs = unsigned? false cs := by
  unfold literal?
  split
  rename_i negative cs' hsign
  split at hsign
  · simp at h
  · cases hsign
    rfl

theorem unsigned?_append (hrest : Clear rest) {negative : Bool} {l : Literal} (h : unsigned? negative cs = some (l, cs')) :
    unsigned? negative (cs ++ rest) = some (l, cs' ++ rest) := by
  unfold unsigned? at h
  simp only [Option.bind_eq_bind, Option.bind_eq_some_iff, Option.pure_def] at h
  obtain ⟨⟨whole, cs₁⟩, h₁, ⟨fraction, cs₂⟩, h₂, ⟨exponent, cs₃⟩, h₃, heq⟩ := h
  cases heq
  simp only [unsigned?, whole?_append hrest h₁, fraction?_append hrest h₂, exponent?_append hrest h₃, Option.bind_eq_bind,
    Option.bind_some, Option.pure_def]

theorem literal?_append (hrest : Clear rest) {l : Literal} (h : literal? cs = some (l, cs')) :
    literal? (cs ++ rest) = some (l, cs' ++ rest) := by
  by_cases hminus : '-' ∈ cs.head?
  · obtain ⟨cs, rfl⟩ := List.head?_eq_some_iff.mp hminus
    exact unsigned?_append hrest h
  · have hne : cs ≠ [] := by
      rintro rfl
      cases h
    rw [literal?_eq hminus] at h
    rw [literal?_eq (by rwa [List.head?_append_of_ne_nil _ hne])]
    exact unsigned?_append hrest h

theorem digits?_head (h : digits? cs = some (ds, cs')) : ∃ c r, cs = c :: r ∧ c.isDigit = true := by
  cases cs with
  | nil => cases h
  | cons c r =>
    refine ⟨c, r, rfl, ?_⟩
    by_contra hc
    simp [digits?, spanDigits, hc] at h

theorem whole?_head (h : whole? cs = some (ds, cs')) : ∃ c r, cs = c :: r ∧ c.isDigit = true := by
  by_cases hzero : '0' ∈ cs.head?
  · obtain ⟨r, rfl⟩ := List.head?_eq_some_iff.mp hzero
    exact ⟨'0', r, rfl, rfl⟩
  · rw [whole?_eq hzero] at h
    exact digits?_head h

/-- A number starts with a sign or a digit. -/
theorem literal?_head {l : Literal} (h : literal? cs = some (l, cs')) :
    ∃ c r, cs = c :: r ∧ ∀ d : Char, d ≠ '-' → d.isDigit = false → c ≠ d := by
  by_cases hminus : '-' ∈ cs.head?
  · obtain ⟨r, rfl⟩ := List.head?_eq_some_iff.mp hminus
    exact ⟨'-', r, rfl, fun d hd _ => hd.symm⟩
  · rw [literal?_eq hminus, unsigned?, Option.bind_eq_bind, Option.bind_eq_some_iff] at h
    obtain ⟨⟨whole, cs₁⟩, h₁, -⟩ := h
    obtain ⟨c, r, rfl, hc⟩ := whole?_head h₁
    refine ⟨c, r, rfl, ?_⟩
    rintro d - hd rfl
    rw [hc] at hd
    cases hd

/-! ### Tokens -/

/-- Whether a token is a number. -/
def isNumber : Token → Bool
  | .number _ => true
  | _ => false

/-- A token has a text that is read as a token of its kind. -/
def Spelled : Token → Prop
  | .number n => ∃ m ∈ n, m.Spelled
  | .string s => s.isSome = true
  | _ => True

section
variable [Reading]

/-- The token that the text of a token is read as. -/
def reread : Token → Token
  | .number n => .number (n.bind Number.reread?)
  | t => t

theorem reread_of_not_number {t : Token} (h : t.isNumber = false) : t.reread = t := by
  cases t with
  | number n => cases h
  | _ => rfl

theorem next?_number {l : Literal} (h : literal? cs = some (l, cs')) : next? cs = some (.number l.value?, cs') := by
  obtain ⟨c, r, rfl, hc⟩ := literal?_head h
  rw [next?]
  · rw [h]
    rfl
  · exact List.cons_ne_nil c r
  all_goals
    intro rest heq
    exact hc _ (by decide) (by decide) (List.cons.inj heq).1

/-- A token is read from its text. Only a number needs to know what comes next. -/
theorem next?_text {t : Token} (ht : t.Spelled) (hrest : t.isNumber = true → Clear rest) :
    next? (t.text ++ rest) = some (t.reread, rest) := by
  cases t with
  | bool b => cases b <;> rfl
  | number n =>
    obtain ⟨m, hm, l, hl⟩ := ht
    obtain rfl : n = some m := hm
    rw [text, next?_number (literal?_append (hrest rfl) hl), reread, Option.bind_some, Number.reread?, hl]
    rfl
  | string s =>
    obtain ⟨s, rfl⟩ := Option.isSome_iff_exists.mp ht
    obtain ⟨ps, hps, hjoin⟩ := pieces?_quoted s.toList rest
    have hquote : next? ('"' :: (s.toList.flatMap escape ++ '"' :: rest)) =
        (pieces? (s.toList.flatMap escape ++ '"' :: rest)).map fun r =>
          (.string ((join? r.1).map String.ofList), r.2) := rfl
    rw [hps, Option.map_some, hjoin, Option.map_some, String.ofList_toList] at hquote
    simpa [text, quote, reread] using hquote
  | _ => rfl

omit [Reading] in
theorem text_head {t : Token} (ht : t.Spelled) :
    ∃ c r, t.text = c :: r ∧ isSpace c = false ∧ (t.isNumber = false → Clear (c :: r)) := by
  cases t with
  | number n =>
    obtain ⟨m, hm, l, hl⟩ := ht
    obtain rfl : n = some m := hm
    obtain ⟨c, r, htext, hc⟩ := literal?_head hl
    refine ⟨c, r, htext, ?_, fun h => by cases h⟩
    have h1 := hc ' ' (by decide) (by decide)
    have h2 := hc '\t' (by decide) (by decide)
    have h3 := hc '\n' (by decide) (by decide)
    have h4 := hc '\r' (by decide) (by decide)
    simp [isSpace, h1, h2, h3, h4]
  | bool b => cases b <;> exact ⟨_, _, rfl, by decide, fun _ => by simp [Clear]⟩
  | string s =>
    obtain ⟨s, rfl⟩ := Option.isSome_iff_exists.mp ht
    exact ⟨_, _, rfl, by decide, fun _ => by simp [Clear]⟩
  | _ => exact ⟨_, _, rfl, by decide, fun _ => by simp [Clear]⟩

/-- No two numbers stand side by side. -/
def Spaced (ts : List Token) : Prop := ts.IsChain fun a b => ¬ (a.isNumber = true ∧ b.isNumber = true)

theorem scan?_text {ts : List Token} (hts : ∀ t ∈ ts, t.Spelled) (hspaced : Spaced ts) :
    ∀ fuel, ts.length ≤ fuel → scan? fuel (ts.flatMap text) = some (ts.map reread) := by
  induction ts with
  | nil => rintro (_ | fuel) - <;> rfl
  | cons t ts ih =>
    rintro (_ | fuel) hfuel
    · cases hfuel
    have ht := hts t (by simp)
    obtain ⟨c, r, htext, hspace, -⟩ := text_head ht
    -- A number ends where the next token begins, as that one is no number.
    have hclear : t.isNumber = true → Clear (ts.flatMap text) := by
      intro hnumber
      cases ts with
      | nil => simp [Clear]
      | cons u ts =>
        obtain ⟨d, s, hu, -, hclear⟩ := text_head (hts u (by simp))
        have hother : u.isNumber = false := by
          have := (List.isChain_cons_cons.mp hspaced).1
          simpa [hnumber] using this
        have hd := hclear hother d rfl
        rw [List.flatMap_cons, hu]
        intro c' hc'
        obtain rfl : d = c' := by simpa using hc'
        exact hd
    have hnext := next?_text ht hclear
    have hdrop : (t.text ++ ts.flatMap text).dropWhile isSpace = t.text ++ ts.flatMap text := by
      rw [htext]
      exact List.dropWhile_cons_of_neg (by simp [hspace])
    rw [List.flatMap_cons, scan?, hdrop]
    rw [htext] at hnext ⊢
    rw [List.cons_append] at hnext ⊢
    simp only [hnext, ih (fun u hu => hts u (by simp [hu])) hspaced.tail fuel (by simpa using hfuel), Option.bind_eq_bind,
      Option.bind_some, Option.pure_def, List.map_cons]

omit [Reading] in
theorem length_le_text {ts : List Token} (hts : ∀ t ∈ ts, t.Spelled) : ts.length ≤ (ts.flatMap text).length := by
  induction ts with
  | nil => simp
  | cons t ts ih =>
    obtain ⟨c, r, htext, -⟩ := text_head (hts t (by simp))
    have := ih fun u hu => hts u (by simp [hu])
    simp only [List.flatMap_cons, List.length_append, List.length_cons, htext]
    omega

/-- Tokens are cut out of their text as they were, but for the reading of numbers. -/
theorem ofChars?_text {ts : List Token} (hts : ∀ t ∈ ts, t.Spelled) (hspaced : Spaced ts) :
    ofChars? (ts.flatMap text) = some (ts.map reread) :=
  scan?_text hts hspaced _ (length_le_text hts)

end
end Token
end Intendant.Json

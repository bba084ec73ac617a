import Intendant.Proofs.Json.Number

/-! # Documents read back

A document that is written without white space is read as the same document with each number as it is read
(`Json.reread`, `parse?_compact`), as long as its numbers are sound and every part of it has a value. The numbers of a
document that was read are sound, `parse?_parsed`. -/

namespace Intendant.Json

/-- Every number in a document, and every part of it that has no value, satisfies `p`. -/
inductive Every (p : Option Number → Prop) : Json → Prop
  | null : Every p .null
  | bool (b : Bool) : Every p (.bool b)
  | number {n : Number} (h : p (some n)) : Every p (.number n)
  | string (s : String) : Every p (.string s)
  | array {vs : List Json} (h : ∀ v ∈ vs, Every p v) : Every p (.array vs)
  | object {ms : List (String × Json)} (h : ∀ m ∈ ms, Every p m.2) : Every p (.object ms)
  | unreadable (h : p none) : Every p .unreadable

/-- Every part of a document has a value, and its doubles satisfy `p`. -/
def Writable (p : Float → Prop) (j : Json) : Prop := j.Every fun n => ∃ m ∈ n, m.Sound ∧ ∀ x, m = .real x → p x

/-- A document as it may come out of a text. -/
def Parsed (j : Json) : Prop := j.Every fun n => ∀ m ∈ n, m.Sound

theorem Writable.mono {p q : Float → Prop} {j : Json} (h : j.Writable p) (hpq : ∀ x, p x → q x) : j.Writable q := by
  induction h with
  | null => exact .null
  | bool b => exact .bool b
  | number h =>
    obtain ⟨m, hm, hsound, hp⟩ := h
    exact .number ⟨m, hm, hsound, fun x hx => hpq x (hp x hx)⟩
  | string s => exact .string s
  | array _ ih => exact .array ih
  | object _ ih => exact .object ih
  | unreadable h =>
    obtain ⟨m, hm, -⟩ := h
    cases hm

/-! ### Other numbers in a document -/

mutual

/-- The document with other numbers. Where there is none, a part of it has no value. -/
def mapNumbers (f : Number → Option Number) : Json → Json
  | .null => .null
  | .bool b => .bool b
  | .number n =>
    match f n with
    | some m => .number m
    | none => .unreadable
  | .string s => .string s
  | .array vs => .array (mapElements f vs)
  | .object ms => .object (mapMembers f ms)
  | .unreadable => .unreadable

/-- The elements of an array with other numbers. -/
def mapElements (f : Number → Option Number) : List Json → List Json
  | [] => []
  | v :: vs => mapNumbers f v :: mapElements f vs

/-- The members of an object with other numbers. -/
def mapMembers (f : Number → Option Number) : List (String × Json) → List (String × Json)
  | [] => []
  | (k, v) :: ms => (k, mapNumbers f v) :: mapMembers f ms

end

section
variable {f : Number → Option Number}

theorem mapElements_eq (vs : List Json) : mapElements f vs = vs.map (mapNumbers f) := by
  induction vs with
  | nil => rfl
  | cons v vs ih => rw [mapElements, ih, List.map_cons]

theorem mapMembers_eq (ms : List (String × Json)) : mapMembers f ms = ms.map fun m => (m.1, mapNumbers f m.2) := by
  induction ms with
  | nil => rfl
  | cons m ms ih => rw [mapMembers, ih, List.map_cons]

theorem mapNumbers_array (vs : List Json) : mapNumbers f (.array vs) = .array (vs.map (mapNumbers f)) := by
  rw [mapNumbers, mapElements_eq]

theorem mapNumbers_object (ms : List (String × Json)) :
    mapNumbers f (.object ms) = .object (ms.map fun m => (m.1, mapNumbers f m.2)) := by
  rw [mapNumbers, mapMembers_eq]

end

/-- The document that the text of a document is read as. -/
def reread [Reading] (j : Json) : Json := j.mapNumbers Number.reread?

/-- A document whose doubles read back is read as it was. -/
theorem Writable.reread_eq [Reading] {p : Float → Prop} {j : Json} (h : j.Writable p)
    (hp : ∀ x, p x → x.isFinite = true → Reading.ReadsBack x) : j.reread = j := by
  unfold reread
  induction h with
  | @number n h =>
    obtain ⟨m, hm, hsound, hreal⟩ := h
    obtain rfl : n = m := Option.some.inj hm
    have hreread : n.reread? = some n := by
      cases n with
      | int n => exact Number.reread?_int hsound
      | real x => rw [Number.reread?_real hsound, hp x (hreal x rfl) hsound, Option.map_some]
    rw [mapNumbers, hreread]
  | array _ ih => rw [mapNumbers_array, List.map_congr_left ih, List.map_id']
  | @object ms _ ih =>
    have hmembers : ∀ m ∈ ms, (m.1, mapNumbers Number.reread? m.2) = m := fun m hm => by rw [ih m hm]
    rw [mapNumbers_object, List.map_congr_left hmembers, List.map_id']
  | unreadable h =>
    obtain ⟨m, hm, -⟩ := h
    cases hm
  | _ => rfl

/-! ### The tokens of a document -/

/-- Tokens that their text is cut into. -/
structure Legible (ts : List Token) : Prop where
  spelled : ∀ t ∈ ts, t.Spelled
  spaced : Token.Spaced ts

theorem Legible.nil : Legible [] := ⟨by simp, .nil⟩

/-- A token that is not a number may stand between any others. -/
theorem Legible.append_cons {ts us : List Token} {t : Token} (hts : Legible ts) (ht : t.Spelled)
    (hnumber : t.isNumber = false) (hus : Legible us) : Legible (ts ++ t :: us) where
  spelled := by
    intro u hu
    rcases List.mem_append.mp hu with hu | hu
    · exact hts.spelled u hu
    · rcases List.mem_cons.mp hu with rfl | hu
      · exact ht
      · exact hus.spelled u hu
  spaced := by
    have htail : Token.Spaced (t :: us) := List.isChain_cons.mpr ⟨fun u _ h => by simp [hnumber] at h, hus.spaced⟩
    refine List.isChain_append.mpr ⟨hts.spaced, htail, ?_⟩
    intro u _ v hv h
    obtain rfl : t = v := by simpa using hv
    simp [hnumber] at h

theorem Legible.cons {us : List Token} {t : Token} (ht : t.Spelled) (hnumber : t.isNumber = false) (hus : Legible us) :
    Legible (t :: us) := Legible.nil.append_cons ht hnumber hus

theorem Legible.singleton {t : Token} (ht : t.Spelled) : Legible [t] := ⟨by simpa using ht, .singleton t⟩

theorem legible_elements : ∀ {vs : List Json}, (∀ v ∈ vs, Legible v.tokens) → Legible (elementTokens vs)
  | [], _ => .nil
  | [v], h => by simpa [elementTokens] using h v (by simp)
  | v :: w :: vs, h => by
    rw [elementTokens]
    · exact (h v (by simp)).append_cons trivial rfl (legible_elements fun u hu => h u (.tail _ hu))
    · simp

theorem legible_members : ∀ {ms : List (String × Json)}, (∀ m ∈ ms, Legible m.2.tokens) → Legible (memberTokens ms)
  | [], _ => .nil
  | [(k, v)], h => by
    rw [memberTokens]
    exact .cons rfl rfl (.cons trivial rfl (h (k, v) (by simp)))
  | (k, v) :: m :: ms, h => by
    rw [memberTokens]
    · have hmore := (h (k, v) (by simp)).append_cons (t := .comma) trivial rfl (legible_members fun u hu => h u (.tail _ hu))
      exact .cons rfl rfl (.cons trivial rfl hmore)
    · simp

theorem Writable.legible {p : Float → Prop} {j : Json} (h : j.Writable p) : Legible j.tokens := by
  induction h with
  | null => exact .singleton trivial
  | bool b => exact .singleton trivial
  | number h =>
    obtain ⟨m, hm, hsound, -⟩ := h
    exact .singleton ⟨m, hm, hsound.spelled⟩
  | string s => exact .singleton rfl
  | @array vs _ ih =>
    rw [tokens]
    exact .cons trivial rfl ((legible_elements ih).append_cons (t := .rightBracket) trivial rfl .nil)
  | @object ms _ ih =>
    rw [tokens]
    exact .cons trivial rfl ((legible_members ih).append_cons (t := .rightBrace) trivial rfl .nil)
  | unreadable h =>
    obtain ⟨m, hm, -⟩ := h
    cases hm

/-! ### The grammar -/

section
variable [Reading]

omit [Reading] in
theorem elementTokens_head (v : Json) (vs : List Json) :
    ∃ t ts, elementTokens (v :: vs) = t :: ts ∧ t ≠ .rightBracket := by
  cases vs <;> cases v <;> simp [elementTokens, tokens]

omit [Reading] in
theorem memberTokens_head (m : String × Json) (ms : List (String × Json)) :
    ∃ ts, memberTokens (m :: ms) = .string (some m.1) :: ts := by
  cases ms <;> simp [memberTokens]

/-- A document is read from its tokens with fuel for two rules per token. -/
def TokensRead (j : Json) : Prop :=
  ∀ fuel rest, 2 * j.tokens.length ≤ fuel → value? fuel (j.tokens.map Token.reread ++ rest) = some (j.reread, rest)

theorem elements?_tokens : ∀ {vs : List Json}, vs ≠ [] → (∀ v ∈ vs, TokensRead v) →
    ∀ fuel rest, 2 * (elementTokens vs).length + 1 ≤ fuel →
      elements? fuel ((elementTokens vs).map Token.reread ++ .rightBracket :: rest) = some (vs.map reread, rest)
  | [], h, _, _, _, _ => absurd rfl h
  | [v], _, h, fuel, rest, hfuel => by
    obtain _ | fuel := fuel
    · omega
    rw [elementTokens] at hfuel ⊢
    rw [elements?, h v (by simp) fuel _ (by omega)]
    rfl
  | v :: w :: vs, _, h, fuel, rest, hfuel => by
    obtain _ | fuel := fuel
    · omega
    have hmore := elements?_tokens (List.cons_ne_nil w vs) fun u hu => h u (.tail _ hu)
    rw [elementTokens] at hfuel ⊢
    · simp only [List.length_append, List.length_cons] at hfuel
      rw [List.map_append, List.map_cons, List.append_assoc, List.cons_append, elements?, h v (by simp) fuel _ (by omega)]
      simp only [Token.reread, Option.bind_eq_bind, Option.bind_some, hmore fuel rest (by omega), Option.pure_def,
        List.map_cons]
    · simp
    · simp

theorem members?_tokens : ∀ {ms : List (String × Json)}, ms ≠ [] → (∀ m ∈ ms, TokensRead m.2) →
    ∀ fuel rest, 2 * (memberTokens ms).length + 1 ≤ fuel →
      members? fuel ((memberTokens ms).map Token.reread ++ .rightBrace :: rest) =
        some (ms.map fun m => (some m.1, m.2.reread), rest)
  | [], h, _, _, _, _ => absurd rfl h
  | [(k, v)], _, h, fuel, rest, hfuel => by
    obtain _ | fuel := fuel
    · omega
    rw [memberTokens] at hfuel ⊢
    simp only [List.length_cons] at hfuel
    rw [List.map_cons, List.map_cons, List.cons_append, List.cons_append,
      Token.reread_of_not_number (t := .string (some k)) rfl, Token.reread_of_not_number (t := .colon) rfl, members?,
      h (k, v) (by simp) fuel _ (by dsimp only; omega)]
    rfl
  | (k, v) :: m :: ms, _, h, fuel, rest, hfuel => by
    obtain _ | fuel := fuel
    · omega
    have hmore := members?_tokens (List.cons_ne_nil m ms) fun u hu => h u (.tail _ hu)
    rw [memberTokens] at hfuel ⊢
    · simp only [List.length_append, List.length_cons] at hfuel
      rw [List.map_cons, List.map_cons, List.map_append, List.map_cons, List.cons_append, List.cons_append,
        List.append_assoc, List.cons_append, Token.reread_of_not_number (t := .string (some k)) rfl,
        Token.reread_of_not_number (t := .colon) rfl, members?, h (k, v) (by simp) fuel _ (by dsimp only; omega)]
      simp only [Token.reread, Option.bind_eq_bind, Option.bind_some, hmore fuel rest (by omega), Option.pure_def,
        List.map_cons]
    · simp
    · simp

omit [Reading] in
theorem ofNamed_some (ms : List (String × Json)) : ofNamed (ms.map fun m => (some m.1, m.2)) = .object ms := by
  have hall : ∀ ms : List (String × Json), (ms.map fun m => (some m.1, m.2)).mapM
      (fun m : Option String × Json => m.1.map fun k => (k, m.2)) = some ms := by
    intro ms
    induction ms with
    | nil => rfl
    | cons m ms ih => simp [ih]
  rw [ofNamed, hall]

theorem Writable.tokensRead {p : Float → Prop} {j : Json} (h : j.Writable p) : TokensRead j := by
  induction h with
  | null | bool | string =>
    rintro (_ | fuel) rest hfuel
    · simp [tokens] at hfuel
    · rfl
  | @number n _ =>
    rintro (_ | fuel) rest hfuel
    · simp [tokens] at hfuel
    · -- A number that is not read leaves a part without a value.
      rw [reread, mapNumbers, tokens, List.map_singleton, Token.reread, Option.bind_some]
      cases n.reread? <;> rfl
  | @array vs _ ih =>
    rintro (_ | fuel) rest hfuel
    · simp [tokens] at hfuel
    simp only [tokens, List.length_cons, List.length_append] at hfuel
    rw [reread, mapNumbers_array, tokens, List.map_append, List.map_cons, List.append_assoc]
    cases vs with
    | nil => rfl
    | cons v vs =>
      have helements := elements?_tokens (List.cons_ne_nil v vs) ih fuel rest (by omega)
      obtain ⟨t, ts, hhead, hne⟩ := elementTokens_head v vs
      have hne' : t.reread ≠ .rightBracket := by
        intro heq
        cases t with
        | rightBracket => exact hne rfl
        | _ => cases heq
      change value? (fuel + 1) (.leftBracket :: ((elementTokens (v :: vs)).map Token.reread ++ .rightBracket :: rest)) = _
      rw [value?, helements]
      · rfl
      · intro more heq
        rw [hhead] at heq
        exact hne' (List.cons.inj heq).1
  | @object ms _ ih =>
    rintro (_ | fuel) rest hfuel
    · simp [tokens] at hfuel
    simp only [tokens, List.length_cons, List.length_append] at hfuel
    rw [reread, mapNumbers_object, tokens, List.map_append, List.map_cons, List.append_assoc]
    cases ms with
    | nil => rfl
    | cons m ms =>
      have hmembers := members?_tokens (List.cons_ne_nil m ms) ih fuel rest (by omega)
      have hnamed : (m :: ms).map (fun m => (some m.1, m.2.reread)) =
          ((m :: ms).map fun m => (m.1, m.2.reread)).map fun m => (some m.1, m.2) := by
        rw [List.map_map]
        rfl
      change value? (fuel + 1) (.leftBrace :: ((memberTokens (m :: ms)).map Token.reread ++ .rightBrace :: rest)) = _
      rw [value?, hmembers]
      · simp only [Option.bind_eq_bind, Option.bind_some, Option.pure_def, hnamed, ofNamed_some]
        rfl
      · intro more heq
        obtain ⟨ts, hhead⟩ := memberTokens_head m ms
        rw [hhead] at heq
        cases (List.cons.inj heq).1
  | unreadable h =>
    obtain ⟨m, hm, -⟩ := h
    cases hm

/-- A document is read from its text, with each number as it is read. -/
theorem parse?_compact {p : Float → Prop} {j : Json} (h : j.Writable p) : parse? j.compact = some j.reread := by
  have htokens : Token.ofChars? j.compactChars = some (j.tokens.map Token.reread) :=
    Token.ofChars?_text h.legible.spelled h.legible.spaced
  have hvalue := h.tokensRead (2 * (j.tokens.map Token.reread).length + 1) [] (by rw [List.length_map]; omega)
  rw [List.append_nil] at hvalue
  simp only [parse?, compact, String.toList_ofList, ofChars?, htokens, Option.bind_some, ofTokens?, hvalue]

end

/-! ### What was read -/

namespace Token

/-- The numbers among the tokens are sound. -/
def SoundNumbers (ts : List Token) : Prop := ∀ t ∈ ts, ∀ n, t = .number (some n) → n.Sound

theorem next?_sound [Reading] {cs rest : List Char} {n : Number} (h : next? cs = some (.number (some n), rest)) : n.Sound := by
  unfold next? at h
  split at h
  all_goals try cases h
  · obtain ⟨r, -, hr⟩ := Option.map_eq_some_iff.mp h
    cases hr
  · obtain ⟨r, -, hr⟩ := Option.map_eq_some_iff.mp h
    exact Literal.value?_sound (Token.number.inj (Prod.mk.inj hr).1)

theorem SoundNumbers.tail {t : Token} {ts : List Token} (h : SoundNumbers (t :: ts)) : SoundNumbers ts :=
  fun u hu => h u (.tail _ hu)

theorem scan?_sound [Reading] : ∀ {fuel : Nat} {cs : List Char} {ts : List Token}, scan? fuel cs = some ts → SoundNumbers ts
  | 0, cs, ts, h => by
    rw [scan?] at h
    split at h
    · cases h
      exact fun t ht => absurd ht List.not_mem_nil
    · cases h
  | fuel + 1, cs, ts, h => by
    rw [scan?] at h
    split at h
    · cases h
      exact fun t ht => absurd ht List.not_mem_nil
    · simp only [Option.bind_eq_bind, Option.bind_eq_some_iff, Option.pure_def, Option.some.injEq] at h
      obtain ⟨⟨t, rest⟩, hnext, us, hscan, rfl⟩ := h
      intro u hu n hn
      rcases List.mem_cons.mp hu with rfl | hu
      · subst hn
        exact next?_sound hnext
      · exact scan?_sound hscan u hu n hn

end Token

theorem forall_of_mapM {α β : Type} {g : α → Option β} {p : β → Prop} {as : List α}
    (h : ∀ a ∈ as, ∀ b, g a = some b → p b) {bs : List β} (hbs : as.mapM g = some bs) : ∀ b ∈ bs, p b := by
  induction as generalizing bs with
  | nil =>
    cases hbs
    exact fun b hb => absurd hb List.not_mem_nil
  | cons a as ih =>
    simp only [List.mapM_cons, Option.bind_eq_bind, Option.bind_eq_some_iff, Option.pure_def, Option.some.injEq] at hbs
    obtain ⟨b, hb, bs', hbs', rfl⟩ := hbs
    exact List.forall_mem_cons.mpr ⟨h a (by simp) b hb, ih (fun a ha => h a (.tail _ ha)) hbs'⟩

theorem ofNamed_parsed {ms : List (Option String × Json)} (h : ∀ m ∈ ms, Parsed m.2) : Parsed (ofNamed ms) := by
  rw [ofNamed]
  split
  · rename_i named hnamed
    refine .object (forall_of_mapM ?_ hnamed)
    intro m hm m' hm'
    obtain ⟨k, -, rfl⟩ := Option.map_eq_some_iff.mp hm'
    exact h m hm
  · exact .unreadable (by rintro m ⟨⟩)

/-- With some fuel, what is read of sound tokens is parsed, and what is left of them is sound. -/
structure ParsedWith (fuel : Nat) : Prop where
  value : ∀ ts j rest, Token.SoundNumbers ts → value? fuel ts = some (j, rest) → Parsed j ∧ Token.SoundNumbers rest
  elements : ∀ ts vs rest, Token.SoundNumbers ts → elements? fuel ts = some (vs, rest) →
    (∀ v ∈ vs, Parsed v) ∧ Token.SoundNumbers rest
  members : ∀ ts ms rest, Token.SoundNumbers ts → members? fuel ts = some (ms, rest) →
    (∀ m ∈ ms, Parsed m.2) ∧ Token.SoundNumbers rest

theorem ParsedWith.value_succ {fuel : Nat} (ih : ParsedWith fuel) (ts : List Token) (j : Json) (rest : List Token)
    (hts : Token.SoundNumbers ts) (hread : value? (fuel + 1) ts = some (j, rest)) :
    Parsed j ∧ Token.SoundNumbers rest := by
  rcases ts with _ | ⟨t, ts⟩
  · simp [value?] at hread
  have htail := hts.tail
  cases t with
  | null =>
    cases hread
    exact ⟨.null, htail⟩
  | bool b =>
    cases hread
    exact ⟨.bool b, htail⟩
  | number n =>
    cases n with
    | none =>
      cases hread
      exact ⟨.unreadable (by rintro m ⟨⟩), htail⟩
    | some n =>
      cases hread
      refine ⟨.number fun m hm => ?_, htail⟩
      obtain rfl : n = m := by simpa using hm
      exact hts _ (.head _) n rfl
  | string k =>
    cases k with
    | none =>
      cases hread
      exact ⟨.unreadable (by rintro m ⟨⟩), htail⟩
    | some k =>
      cases hread
      exact ⟨.string k, htail⟩
  | leftBracket =>
    -- An empty array is closed at once and has no elements to be read.
    by_cases hclose : ∃ us, ts = .rightBracket :: us
    · obtain ⟨us, rfl⟩ := hclose
      cases hread
      exact ⟨.array fun v hv => absurd hv List.not_mem_nil, htail.tail⟩
    · rw [value?] at hread
      · simp only [Option.bind_eq_bind, Option.bind_eq_some_iff, Option.pure_def, Option.some.injEq] at hread
        obtain ⟨⟨vs, rest'⟩, helements, heq⟩ := hread
        cases heq
        obtain ⟨hvs, hrest⟩ := ih.elements _ _ _ htail helements
        exact ⟨.array hvs, hrest⟩
      · exact fun us hus => hclose ⟨us, hus⟩
  | leftBrace =>
    by_cases hclose : ∃ us, ts = .rightBrace :: us
    · obtain ⟨us, rfl⟩ := hclose
      cases hread
      exact ⟨.object fun m hm => absurd hm List.not_mem_nil, htail.tail⟩
    · rw [value?] at hread
      · simp only [Option.bind_eq_bind, Option.bind_eq_some_iff, Option.pure_def, Option.some.injEq] at hread
        obtain ⟨⟨ms, rest'⟩, hmembers, heq⟩ := hread
        cases heq
        obtain ⟨hms, hrest⟩ := ih.members _ _ _ htail hmembers
        exact ⟨ofNamed_parsed hms, hrest⟩
      · exact fun us hus => hclose ⟨us, hus⟩
  | _ => simp [value?] at hread

theorem ParsedWith.elements_succ {fuel : Nat} (ih : ParsedWith fuel) (ts : List Token) (vs : List Json) (rest : List Token)
    (hts : Token.SoundNumbers ts) (hread : elements? (fuel + 1) ts = some (vs, rest)) :
    (∀ v ∈ vs, Parsed v) ∧ Token.SoundNumbers rest := by
  simp only [elements?, Option.bind_eq_bind, Option.bind_eq_some_iff] at hread
  obtain ⟨⟨v, ts'⟩, hv, hread⟩ := hread
  obtain ⟨hparsed, hts'⟩ := ih.value _ _ _ hts hv
  rcases ts' with _ | ⟨t, us⟩
  · cases hread
  cases t with
  | comma =>
    simp only [Option.bind_eq_some_iff, Option.pure_def, Option.some.injEq] at hread
    obtain ⟨⟨vs', rest'⟩, hmore, heq⟩ := hread
    cases heq
    obtain ⟨hvs, hrest⟩ := ih.elements _ _ _ hts'.tail hmore
    exact ⟨List.forall_mem_cons.mpr ⟨hparsed, hvs⟩, hrest⟩
  | rightBracket =>
    cases hread
    exact ⟨by simpa using hparsed, hts'.tail⟩
  | _ => cases hread

theorem ParsedWith.members_succ {fuel : Nat} (ih : ParsedWith fuel) (ts : List Token) (ms : List (Option String × Json))
    (rest : List Token) (hts : Token.SoundNumbers ts) (hread : members? (fuel + 1) ts = some (ms, rest)) :
    (∀ m ∈ ms, Parsed m.2) ∧ Token.SoundNumbers rest := by
  unfold members? at hread
  split at hread
  · rename_i fuel' k us hfuel
    cases hfuel
    simp only [Option.bind_eq_bind, Option.bind_eq_some_iff] at hread
    obtain ⟨⟨v, ts'⟩, hv, hread⟩ := hread
    obtain ⟨hparsed, hts'⟩ := ih.value _ _ _ hts.tail.tail hv
    rcases ts' with _ | ⟨t, us⟩
    · cases hread
    cases t with
    | comma =>
      simp only [Option.bind_eq_some_iff, Option.pure_def, Option.some.injEq] at hread
      obtain ⟨⟨ms', rest'⟩, hmore, heq⟩ := hread
      cases heq
      obtain ⟨hms, hrest⟩ := ih.members _ _ _ hts'.tail hmore
      exact ⟨List.forall_mem_cons.mpr ⟨hparsed, hms⟩, hrest⟩
    | rightBrace =>
      cases hread
      exact ⟨by simpa using hparsed, hts'.tail⟩
    | _ => cases hread
  · cases hread

theorem parsedWith : ∀ fuel, ParsedWith fuel
  | 0 => by constructor <;> intro ts _ _ _ h <;> simp [value?, elements?, members?] at h
  | fuel + 1 => ⟨(parsedWith fuel).value_succ, (parsedWith fuel).elements_succ, (parsedWith fuel).members_succ⟩

/-- The numbers of a document that was read are sound. -/
theorem parse?_parsed [Reading] {text : String} {j : Json} (h : parse? text = some j) : j.Parsed := by
  simp only [parse?, ofChars?, Option.bind_eq_some_iff] at h
  obtain ⟨ts, htokens, hvalue⟩ := h
  rw [ofTokens?] at hvalue
  split at hvalue
  · rename_i j' hj
    cases hvalue
    exact ((parsedWith _).value _ _ _ (Token.scan?_sound htokens) hj).1
  · cases hvalue

end Intendant.Json

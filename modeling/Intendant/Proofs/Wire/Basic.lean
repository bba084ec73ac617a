import Intendant.Proofs.Json.Reader
import Intendant.Wire.Basic

/-! # Faithful wire forms

A wire form is faithful (`Faithful`) if a value is read back from its document exactly when all doubles in
the value are finite, if nothing else is ever read, and if the document has no other doubles than the value. Texts,
numbers, lists and maps have faithful forms, and so has a record whose fields have one: the lemmas on `Fields` take a
record apart. A text is read as a value where the doubles of the value are read back (`decode?_encode`). -/

namespace Intendant

namespace KeyMap
variable {α : Type}

theorem get?_foldl_insert {l : List (String × α)} (hl : l.Pairwise fun a b => a.1 < b.1) (m : KeyMap α) (k : String) :
    (l.foldl (fun m e => m.insert e.1 e.2) m).get? k = (lookup k l).or (m.get? k) := by
  induction l generalizing m with
  | nil => rfl
  | cons e l ih =>
    obtain ⟨hlt, hl⟩ := List.pairwise_cons.mp hl
    rw [List.foldl_cons, ih hl, get?_insert, lookup]
    by_cases hk : k = e.1
    · rw [if_pos hk, if_pos hk, hk, lookup_eq_none_of_lt hlt]
      rfl
    · rw [if_neg hk, if_neg hk]

/-- A map is made again from its entries. -/
theorem ofList_entries (m : KeyMap α) : ofList m.entries = m := by
  refine ext_get? fun k => ?_
  rw [ofList, get?_foldl_insert m.sorted, get?_empty, Option.or_none]
  rfl

theorem mem_ofList {l : List (String × α)} {e : String × α} (h : e ∈ (ofList l).entries) : e ∈ l := by
  have hall : ∀ (l : List (String × α)) (m : KeyMap α), e ∈ (l.foldl (fun m e => m.insert e.1 e.2) m).entries →
      e ∈ l ∨ e ∈ m.entries := by
    intro l
    induction l with
    | nil => exact fun m h => Or.inr h
    | cons a l ih =>
      intro m h
      rcases ih _ h with h | h
      · exact Or.inl (.tail _ h)
      · rcases mem_put h with rfl | h
        · exact Or.inl (.head _)
        · exact Or.inr h
  rcases hall l empty h with h | h
  · exact h
  · cases h

end KeyMap

namespace Wire

/-- The doubles in a value. -/
class HasFloats (α : Type) where
  floats : α → List Float

export HasFloats (floats)

variable {α : Type} [Wire α] [HasFloats α]

/-- Whether all doubles in a value are finite. -/
def finite (v : α) : Bool := (floats v).all Float.isFinite

/-- A wire form that loses nothing of a value with finite doubles. -/
class Faithful (α : Type) [Wire α] [HasFloats α] : Prop where
  writable (v : α) : (toJson v).Writable (· ∈ floats v)
  ofJson?_toJson (v : α) : ofJson? (toJson v) = if finite v then some v else none
  finite_of_ofJson? {j : Json} {v : α} : j.Parsed → ofJson? j = some v → finite v = true

export Faithful (writable ofJson?_toJson finite_of_ofJson?)

attribute [simp] Faithful.ofJson?_toJson

@[simp] theorem writable_of_floats [Faithful α] {p : Float → Prop} {v : α} (h : ∀ x ∈ floats v, p x) :
    (toJson v).Writable p := (writable v).mono h

omit [Wire α] in
theorem finite_of_floats_eq_nil {v : α} (h : floats v = []) : finite v = true := by
  rw [finite, h]
  rfl

/-! ### Texts and numbers -/

instance : HasFloats String := ⟨fun _ => []⟩
instance : HasFloats Bool := ⟨fun _ => []⟩
instance : HasFloats Int64 := ⟨fun _ => []⟩
instance : HasFloats Float := ⟨fun x => [x]⟩

@[simp] theorem floats_string (s : String) : floats s = [] := rfl
@[simp] theorem floats_bool (b : Bool) : floats b = [] := rfl
@[simp] theorem floats_int64 (n : Int64) : floats n = [] := rfl

@[simp] theorem finite_string (s : String) : finite s = true := rfl
@[simp] theorem finite_bool (b : Bool) : finite b = true := rfl
@[simp] theorem finite_int64 (n : Int64) : finite n = true := rfl
@[simp] theorem finite_float (x : Float) : finite x = x.isFinite := Bool.and_true _

@[simp] theorem writable_string (p : Float → Prop) (s : String) : (Json.string s).Writable p := .string s
@[simp] theorem writable_bool (p : Float → Prop) (b : Bool) : (Json.bool b).Writable p := .bool b

@[simp] theorem ofJson?_string (s : String) : ofJson? (.string s) = some s := rfl
@[simp] theorem ofJson?_bool (b : Bool) : ofJson? (.bool b) = some b := rfl

instance : Faithful String where
  writable s := .string s
  ofJson?_toJson _ := rfl
  finite_of_ofJson? _ _ := rfl

instance : Faithful Bool where
  writable b := .bool b
  ofJson?_toJson _ := rfl
  finite_of_ofJson? _ _ := rfl

instance : Faithful Int64 where
  writable n := by
    have hlo := n.le_toInt
    have hhi := n.toInt_lt
    exact .number ⟨_, rfl, ⟨by omega, by omega⟩, nofun⟩
  ofJson?_toJson n := by
    have hlo := n.le_toInt
    have hhi := n.toInt_lt
    show (if -9223372036854775808 ≤ n.toInt ∧ n.toInt ≤ 9223372036854775807 then some (Int64.ofInt n.toInt) else none) = some n
    rw [if_pos (by omega), Int64.ofInt_toInt]
  finite_of_ofJson? _ _ := rfl

instance : Faithful Float where
  writable x := by
    show (Json.ofFloat x).Writable (· ∈ [x])
    unfold Json.ofFloat
    split
    · rename_i hx
      refine .number ⟨_, rfl, hx, fun y hy => ?_⟩
      cases hy
      exact List.mem_singleton_self x
    · exact .null
  ofJson?_toJson x := by
    show ofJson? (Json.ofFloat x) = _
    rw [finite_float, Json.ofFloat]
    split <;> rfl
  finite_of_ofJson? {j x} hj h := by
    rw [finite_float]
    cases hj with
    | @number n hn =>
      have hsound := hn n rfl
      cases n with
      | int n =>
        cases h
        exact Json.Number.isFinite_ofInt hsound
      | real x =>
        cases h
        exact hsound
    | _ => cases h

/-! ### Lists and maps -/

theorem mapM_map {β γ δ : Type} {f : β → γ} {g : γ → Option δ} {p : β → Bool} {g' : β → Option δ} {vs : List β}
    (h : ∀ v ∈ vs, g (f v) = if p v then g' v else none) :
    (vs.map f).mapM g = if vs.all p then vs.mapM g' else none := by
  induction vs with
  | nil => rfl
  | cons v vs ih =>
    rw [List.map_cons, List.mapM_cons, h v (.head _), ih fun v hv => h v (.tail _ hv), List.all_cons, List.mapM_cons]
    cases p v <;> cases vs.all p <;> cases g' v <;> rfl

theorem mapM_eq_some_self {β : Type} {g : β → Option β} {vs : List β} (h : ∀ v ∈ vs, g v = some v) :
    vs.mapM g = some vs := by
  induction vs with
  | nil => rfl
  | cons v vs ih =>
    rw [List.mapM_cons, h v (.head _), ih fun v hv => h v (.tail _ hv)]
    rfl

instance : HasFloats (List α) := ⟨fun vs => vs.flatMap floats⟩
instance : HasFloats (KeyMap α) := ⟨fun m => m.entries.flatMap fun e => floats e.2⟩

omit [Wire α] in
theorem floats_list_of_forall (h : ∀ v : α, floats v = []) (vs : List α) : floats vs = [] :=
  List.flatMap_eq_nil_iff.mpr fun v _ => h v

omit [Wire α] in
theorem floats_keyMap_of_forall (h : ∀ v : α, floats v = []) (m : KeyMap α) : floats m = [] :=
  List.flatMap_eq_nil_iff.mpr fun e _ => h e.2

@[simp] theorem floats_texts (m : KeyMap String) : floats m = [] := floats_keyMap_of_forall floats_string m
@[simp] theorem floats_integers (m : KeyMap Int64) : floats m = [] := floats_keyMap_of_forall floats_int64 m

omit [Wire α] in
theorem finite_list (vs : List α) : finite vs = vs.all finite := List.all_flatMap

omit [Wire α] in
theorem finite_keyMap (m : KeyMap α) : finite m = m.entries.all fun e => finite e.2 := List.all_flatMap

omit [Wire α] in
theorem finite_keyMap_of_forall (h : ∀ v : α, finite v = true) (m : KeyMap α) : finite m = true := by
  rw [finite_keyMap, List.all_eq_true]
  exact fun e _ => h e.2

@[simp] theorem finite_texts (m : KeyMap String) : finite m = true := finite_keyMap_of_forall finite_string m
@[simp] theorem finite_integers (m : KeyMap Int64) : finite m = true := finite_keyMap_of_forall finite_int64 m

variable [Faithful α]

instance : Faithful (List α) where
  writable vs := .array fun j hj => by
    obtain ⟨v, hv, rfl⟩ := List.mem_map.mp hj
    exact writable_of_floats fun x hx => List.mem_flatMap_of_mem hv hx
  ofJson?_toJson vs := by
    rw [finite_list]
    refine (mapM_map fun v _ => ofJson?_toJson v).trans ?_
    rw [mapM_eq_some_self fun _ _ => rfl]
  finite_of_ofJson? {j vs} hj h := by
    rw [finite_list, List.all_eq_true]
    cases hj with
    | @array js hjs => exact Json.forall_of_mapM (fun j hj v hv => finite_of_ofJson? (hjs j hj) hv) h
    | _ => cases h

instance : Faithful (KeyMap α) where
  writable m := .object fun j hj => by
    obtain ⟨e, he, rfl⟩ := List.mem_map.mp hj
    exact writable_of_floats fun x hx => List.mem_flatMap_of_mem he hx
  ofJson?_toJson m := by
    have hentry : ∀ e : String × α, ((ofJson? (toJson e.2)).map fun v => (e.1, v)) = if finite e.2 then some e else none := by
      intro e
      rw [ofJson?_toJson]
      split <;> rfl
    have hentries : ((m.entries.map fun e => (e.1, toJson e.2)).mapM fun e => (ofJson? e.2).map fun v => (e.1, v)) =
        if m.entries.all fun e => finite e.2 then some m.entries else none := by
      refine (mapM_map fun e _ => hentry e).trans ?_
      rw [mapM_eq_some_self fun _ _ => rfl]
    show ((m.entries.map fun e => (e.1, toJson e.2)).mapM fun e => (ofJson? e.2).map fun v => (e.1, v)).map KeyMap.ofList = _
    rw [hentries, finite_keyMap]
    split
    · exact congrArg some m.ofList_entries
    · rfl
  finite_of_ofJson? {j m} hj h := by
    rw [finite_keyMap, List.all_eq_true]
    cases hj with
    | @object ms hms =>
      obtain ⟨es, hes, rfl⟩ := Option.map_eq_some_iff.mp h
      have hall : ∀ e ∈ es, finite e.2 = true := by
        refine Json.forall_of_mapM ?_ hes
        intro m hm e he
        obtain ⟨v, hv, rfl⟩ := Option.map_eq_some_iff.mp he
        exact finite_of_ofJson? (hms m hm) hv
      exact fun e he => hall e (KeyMap.mem_ofList he)
    | _ => cases h

/-! ### Records -/

@[simp] theorem bind_if {α β : Type} (p : Bool) (a : α) (f : α → Option β) :
    (if p then some a else none).bind f = if p then f a else none := by
  cases p <;> rfl

namespace Fields

theorem hasRepeat_eq_false : ∀ {ms : List (String × Json)}, (ms.map (·.1)).Nodup → hasRepeat ms = false
  | [], _ => rfl
  | m :: ms, h => by
    obtain ⟨hne, hms⟩ := List.nodup_cons.mp h
    have hany : ms.any (·.1 = m.1) = false := by
      rw [List.any_eq_false]
      intro n hn heq
      exact hne (List.mem_map.mpr ⟨n, hn, by simpa using heq⟩)
    rw [hasRepeat, hany, hasRepeat_eq_false hms, Bool.or_self]

/-- A record is taken apart into the fields that it was put together from. -/
theorem of?_object {names : List String} {ms : List (String × Json)} (hknown : ∀ m ∈ ms, m.1 ∈ names)
    (hdistinct : (ms.map (·.1)).Nodup) : of? names (.object ms) = some ⟨ms⟩ := by
  have hall : known names ms = ms := List.filter_eq_self.mpr fun m hm => decide_eq_true (hknown m hm)
  simp only [of?, hall, hasRepeat_eq_false hdistinct, Bool.false_eq_true, if_false]

theorem of?_bind {α : Type} {names : List String} {ms : List (String × Json)} (hknown : ∀ m ∈ ms, m.1 ∈ names)
    (hdistinct : (ms.map (·.1)).Nodup) (read : Fields → Option α) : (of? names (.object ms)).bind read = read ⟨ms⟩ := by
  rw [of?_object hknown hdistinct]
  rfl

@[simp] theorem get?_cons (k name : String) (v : Json) (ms : List (String × Json)) :
    get? ⟨(k, v) :: ms⟩ name = if k = name then some v else get? ⟨ms⟩ name := by
  unfold get?
  by_cases hk : k = name
  · simp [hk]
  · simp [hk]

theorem parsed_of_get? {names : List String} {j : Json} {f : Fields} {name : String} {v : Json} (hj : j.Parsed)
    (hf : of? names j = some f) (h : f.get? name = some v) : v.Parsed := by
  obtain ⟨m, hm, rfl⟩ := Option.map_eq_some_iff.mp h
  have hmem := List.mem_of_find?_eq_some hm
  cases hj with
  | @object ms hms =>
    rw [of?] at hf
    split at hf
    · cases hf
    · cases hf
      exact hms m (List.mem_of_mem_filter hmem)
  | @array vs hvs =>
    rw [of?] at hf
    split at hf
    · cases hf
      exact hvs m.2 (List.of_mem_zip hmem).2
    · cases hf
  | _ => cases hf

end Fields

@[simp] theorem writable_object {p : Float → Prop} {ms : List (String × Json)} :
    (Json.object ms).Writable p ↔ ∀ m ∈ ms, m.2.Writable p :=
  ⟨fun h => by cases h with | object h => exact h, .object⟩

theorem finite_of_required? {names : List String} {j : Json} {f : Fields} {name : String} {v : α} (hj : j.Parsed)
    (hf : Fields.of? names j = some f) (h : f.required? name = some v) : finite v = true := by
  obtain ⟨i, hi, hv⟩ := Option.bind_eq_some_iff.mp h
  exact finite_of_ofJson? (Fields.parsed_of_get? hj hf hi) hv

theorem finite_of_optional? {names : List String} {j : Json} {f : Fields} {name : String} {v d : α} (hd : finite d = true)
    (hj : j.Parsed) (hf : Fields.of? names j = some f) (h : f.optional? name d = some v) : finite v = true := by
  rw [Fields.optional?] at h
  split at h
  · cases h
    exact hd
  · rename_i i hi
    exact finite_of_ofJson? (Fields.parsed_of_get? hj hf hi) h

/-! ### Texts -/

variable [Json.Reading]

/-- The text of a value is read as the document of the value with each number as it is read. -/
theorem decode?_eq (v : α) : decode? (encode v) = (ofJson? (toJson v).reread : Option α) := by
  rw [decode?, encode, Json.parse?_compact (writable v), Option.bind_some]

theorem reread_toJson (h : ∀ v : α, floats v = []) (v : α) : (toJson v).reread = toJson v :=
  (writable v).reread_eq fun _ hx => absurd (h v ▸ hx) List.not_mem_nil

theorem decode?_encode {v : α} (h : ∀ x ∈ floats v, x.isFinite = true → Json.Reading.ReadsBack x) :
    decode? (encode v) = if finite v then some v else none := by
  rw [decode?_eq, (writable v).reread_eq h]
  exact ofJson?_toJson v

/-- All doubles in a value are finite and read back. -/
def Carried (v : α) : Prop := ∀ x ∈ floats v, x.isFinite = true ∧ Json.Reading.ReadsBack x

omit [Wire α] [Faithful α] in
instance (v : α) : Decidable (Carried v) :=
  inferInstanceAs (Decidable (∀ x ∈ floats v, x.isFinite = true ∧ Json.Reading.ReadsBack x))

omit [Wire α] [Faithful α] in
theorem Carried.finite {v : α} (h : Carried v) : finite v = true := List.all_eq_true.mpr fun x hx => (h x hx).1

theorem decode?_carried {v : α} (h : Carried v) : decode? (encode v) = some v := by
  rw [decode?_encode fun x hx _ => (h x hx).2, if_pos h.finite]

theorem finite_of_decode? {text : String} {v : α} (h : decode? text = some v) : finite v = true := by
  obtain ⟨j, hj, hv⟩ := Option.bind_eq_some_iff.mp h
  exact finite_of_ofJson? (Json.parse?_parsed hj) hv

end Wire
end Intendant

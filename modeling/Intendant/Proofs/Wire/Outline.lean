import Intendant.Proofs.Wire.Basic

/-! # Documents without some of their fields

The outline of a wire type says where the fields of its records are and which of them have to be given. A choice of
fields is left out of a document by its outline (`Outline.without`), and a wire form is lenient (`Lenient`) if what is
read then is the value with the defaults of exactly these fields, and nothing if one of them has to be given. The doubles
are the ones that their texts are read as (`MapFloats`). -/

namespace Intendant.Wire

/-- A step into a document: to a member of an object or to an element of an array. -/
inductive Step where
  | name (name : String)
  | element (index : Nat)

/-- The fields to leave out, by the steps that lead to them. -/
abbrev Choice := List Step → Bool

namespace Choice

/-- The choice in the part of a document that a step leads to. -/
def under (c : Choice) (step : Step) : Choice := fun path => c (step :: path)

/-- Whether a field of a record is left out. -/
def leavesOut (c : Choice) (name : String) : Bool := c [.name name]

end Choice

/-- Where the fields of the records in a document are. -/
structure Outline where
  /-- The document without the chosen fields. -/
  without : Choice → Json → Json
  /-- Of the records that stay, no field that has to be given is chosen. -/
  permits : Choice → Json → Bool
  writable_without : ∀ {p : Float → Prop} {c j}, j.Writable p → (without c j).Writable p

namespace Outline

/-- The outline of documents without fields. -/
def plain : Outline := ⟨fun _ j => j, fun _ _ => true, id⟩

/-- Documents of one outline in an array. -/
def list (o : Outline) : Outline where
  without c
    | .array js => .array (js.mapIdx fun i j => o.without (c.under (.element i)) j)
    | j => j
  permits c
    | .array js => (js.mapIdx fun i j => o.permits (c.under (.element i)) j).all id
    | _ => true
  writable_without {_ c j} h := by
    cases j with
    | array js =>
      cases h with
      | array hjs =>
        refine .array fun j hj => ?_
        obtain ⟨i, hi, rfl⟩ := List.mem_mapIdx.mp hj
        exact o.writable_without (hjs _ (List.getElem_mem hi))
    | _ => exact h

/-- Documents of one outline by name. Their names are no fields, so none of them is left out. -/
def map (o : Outline) : Outline where
  without c
    | .object ms => .object (ms.map fun m => (m.1, o.without (c.under (.name m.1)) m.2))
    | j => j
  permits c
    | .object ms => ms.all fun m => o.permits (c.under (.name m.1)) m.2
    | _ => true
  writable_without {_ c j} h := by
    cases j with
    | object ms =>
      cases h with
      | object hms =>
        refine .object fun m hm => ?_
        obtain ⟨m, hmem, rfl⟩ := List.mem_map.mp hm
        exact o.writable_without (hms m hmem)
    | _ => exact h

/-- A field of a record: whether it has to be given, and the outline of its documents. -/
structure Field where
  name : String
  required : Bool
  outline : Outline

/-- The outline of the field with a name. -/
def ofField (fs : List Field) (name : String) : Outline := ((fs.find? (·.name = name)).map (·.outline)).getD plain

/-- Whether the field with a name has to be given. -/
def requires (fs : List Field) (name : String) : Bool := ((fs.find? (·.name = name)).map (·.required)).getD false

/-- A member of a record, unless it is left out. -/
def keep? (fs : List Field) (c : Choice) (m : String × Json) : Option (String × Json) :=
  if c.leavesOut m.1 then none else some (m.1, (ofField fs m.1).without (c.under (.name m.1)) m.2)

/-- A member of a record may be treated as it is chosen. -/
def fits (fs : List Field) (c : Choice) (m : String × Json) : Bool :=
  if c.leavesOut m.1 then !requires fs m.1 else (ofField fs m.1).permits (c.under (.name m.1)) m.2

/-- Records with these fields. -/
def record (fs : List Field) : Outline where
  without c
    | .object ms => .object (ms.filterMap (keep? fs c))
    | j => j
  permits c
    | .object ms => ms.all (fits fs c)
    | _ => true
  writable_without {_ c j} h := by
    cases j with
    | object ms =>
      cases h with
      | object hms =>
        refine .object fun m hm => ?_
        obtain ⟨m, hmem, hkeep⟩ := List.mem_filterMap.mp hm
        rw [keep?] at hkeep
        split at hkeep
        · cases hkeep
        · cases hkeep
          exact Outline.writable_without _ (hms m hmem)
    | _ => exact h

end Outline

/-- The outline of the documents of a type, and the defaults of its fields. -/
class Outlined (α : Type) where
  outline : Outline
  /-- The value with the defaults of the chosen fields. -/
  defaulted : Choice → α → α

export Outlined (outline defaulted)

theorem reread_without [Json.Reading] {α : Type} [Wire α] [HasFloats α] [Faithful α] (h : ∀ v : α, floats v = [])
    (o : Outline) (c : Choice) (v : α) : (o.without c (toJson v)).reread = o.without c (toJson v) :=
  (o.writable_without (writable v)).reread_eq fun _ hx => absurd (h v ▸ hx) List.not_mem_nil

variable {α : Type} [Outlined α]

/-- The value of a field, or its default if it is left out. -/
def Choice.kept (c : Choice) (name : String) (v default : α) : α :=
  if c.leavesOut name then default else defaulted (c.under (.name name)) v

/-- The value of a field that has to be given. -/
def Choice.given (c : Choice) (name : String) (v : α) : α := defaulted (c.under (.name name)) v

/-- Values with other doubles in them. -/
class MapFloats (α : Type) where
  /-- The value with each double replaced, if each of them has a replacement. -/
  mapFloats? : (Float → Option Float) → α → Option α

export MapFloats (mapFloats?)

/-- A wire form that puts defaults in the place of fields that are left out, and keeps everything else but for doubles whose
    text is read as another one. -/
class Lenient (α : Type) [Wire α] [HasFloats α] [Outlined α] [MapFloats α] : Prop where
  mapFloats?_eq_some {f : Float → Option Float} {v : α} : (∀ x ∈ floats v, f x = some x) → mapFloats? f v = some v
  ofJson?_without [Json.Reading] (c : Choice) {v : α} : finite v = true →
    ofJson? ((outline α).without c (toJson v)).reread =
      if (outline α).permits c (toJson v) then mapFloats? Json.Reading.again? (defaulted c v) else none

export Lenient (mapFloats?_eq_some ofJson?_without)

theorem mapFloats?_of_floats_eq_nil [Wire α] [HasFloats α] [MapFloats α] [Lenient α] {f : Float → Option Float} {v : α}
    (h : floats v = []) : mapFloats? f v = some v :=
  mapFloats?_eq_some fun _ hx => absurd (h ▸ hx) List.not_mem_nil

/-! ### Texts and numbers -/

instance : Outlined String := ⟨.plain, fun _ v => v⟩
instance : Outlined Bool := ⟨.plain, fun _ v => v⟩
instance : Outlined Int64 := ⟨.plain, fun _ v => v⟩
instance : Outlined Float := ⟨.plain, fun _ v => v⟩

instance : MapFloats String := ⟨fun _ v => some v⟩
instance : MapFloats Bool := ⟨fun _ v => some v⟩
instance : MapFloats Int64 := ⟨fun _ v => some v⟩
instance : MapFloats Float := ⟨fun f x => f x⟩

instance : Lenient String := ⟨fun _ => rfl, fun _ _ _ => rfl⟩
instance : Lenient Bool := ⟨fun _ => rfl, fun _ _ _ => rfl⟩

instance : Lenient Int64 where
  mapFloats?_eq_some _ := rfl
  ofJson?_without _ v _ := (congrArg ofJson? (reread_toJson floats_int64 v)).trans (ofJson?_toJson v)

instance : Lenient Float where
  mapFloats?_eq_some h := h _ (List.mem_singleton_self _)
  ofJson?_without c x h := by
    rw [finite_float] at h
    have hjson : (toJson x).reread = match (Json.Reading.again? x).map Json.Number.real with
        | some n => .number n
        | none => .unreadable := by
      rw [← Json.Number.reread?_real h]
      show (Json.ofFloat x).reread = _
      rw [Json.ofFloat, if_pos h]
      rfl
    show ofJson? (toJson x).reread = Json.Reading.again? x
    rw [hjson]
    cases Json.Reading.again? x <;> rfl

/-! ### Lists and maps -/

theorem mapIdx_map {β γ δ : Type} (f : β → γ) (g : Nat → γ → δ) (vs : List β) :
    (vs.map f).mapIdx g = vs.mapIdx fun i v => g i (f v) := List.ext_getElem (by simp) (by simp)

theorem mapM_mapIdx {β γ δ : Type} {f : Nat → β → Json} {g : Json → Option δ} {p : Nat → β → Bool} {d : Nat → β → γ}
    {g' : γ → Option δ} {vs : List β} (h : ∀ i, ∀ v ∈ vs, g (f i v) = if p i v then g' (d i v) else none) :
    (vs.mapIdx f).mapM g = if (vs.mapIdx p).all id then (vs.mapIdx d).mapM g' else none := by
  -- The index is part of what is left open, since the tail starts one further.
  induction vs generalizing f p d with
  | nil => rfl
  | cons v vs ih =>
    have htail := ih (f := fun i => f (i + 1)) (p := fun i => p (i + 1)) (d := fun i => d (i + 1))
      fun i v hv => h (i + 1) v (.tail _ hv)
    simp only [List.mapIdx_cons, List.mapM_cons, List.all_cons, h 0 v (.head _), htail, id_eq]
    cases p 0 v <;> cases (vs.mapIdx fun i => p (i + 1)).all id <;> cases g' (d 0 v) <;> rfl

instance : Outlined (List α) where
  outline := (outline α).list
  defaulted c vs := vs.mapIdx fun i v => defaulted (c.under (.element i)) v

instance : Outlined (KeyMap α) where
  outline := (outline α).map
  defaulted c m :=
    ⟨m.entries.map fun e => (e.1, defaulted (c.under (.name e.1)) e.2), m.sorted.map _ fun _ _ h => h⟩

variable [MapFloats α]

instance : MapFloats (List α) where
  mapFloats? f vs := vs.mapM (mapFloats? f)

instance : MapFloats (KeyMap α) where
  mapFloats? f m := (m.entries.mapM fun e => (mapFloats? f e.2).map fun v => (e.1, v)).map KeyMap.ofList

variable [Wire α] [HasFloats α] [Lenient α]

instance : Lenient (List α) where
  mapFloats?_eq_some h :=
    mapM_eq_some_self fun _ hv => mapFloats?_eq_some fun x hx => h x (List.mem_flatMap_of_mem hv hx)
  ofJson?_without c vs h := by
    rw [finite_list, List.all_eq_true] at h
    have hwithout : ((outline (List α)).without c (toJson vs)).reread =
        .array ((vs.mapIdx fun i v => (outline α).without (c.under (.element i)) (toJson v)).map Json.reread) := by
      refine (Json.mapNumbers_array _).trans (congrArg Json.array ?_)
      rw [mapIdx_map]
      rfl
    have hpermits : (outline (List α)).permits c (toJson vs) =
        (vs.mapIdx fun i v => (outline α).permits (c.under (.element i)) (toJson v)).all id :=
      congrArg (List.all · id) (mapIdx_map _ _ _)
    rw [hwithout, hpermits]
    refine List.mapM_map.trans (mapM_mapIdx (g := fun j => ofJson? j.reread) fun i v hv => ?_)
    exact ofJson?_without (c.under (.element i)) (h v hv)

instance : Lenient (KeyMap α) where
  mapFloats?_eq_some {f m} h := by
    have hentries : (m.entries.mapM fun e => (mapFloats? f e.2).map fun v => (e.1, v)) = some m.entries := by
      refine mapM_eq_some_self fun e he => ?_
      rw [mapFloats?_eq_some fun x hx => h x (List.mem_flatMap_of_mem he hx), Option.map_some]
    refine (congrArg (Option.map KeyMap.ofList) hentries).trans ?_
    exact congrArg some m.ofList_entries
  ofJson?_without c m h := by
    rw [finite_keyMap, List.all_eq_true] at h
    have hwithout : ((outline (KeyMap α)).without c (toJson m)).reread =
        .object (m.entries.map fun e => (e.1, ((outline α).without (c.under (.name e.1)) (toJson e.2)).reread)) := by
      refine (Json.mapNumbers_object _).trans (congrArg Json.object ?_)
      rw [List.map_map, List.map_map]
      rfl
    have hpermits : (outline (KeyMap α)).permits c (toJson m) =
        m.entries.all fun e => (outline α).permits (c.under (.name e.1)) (toJson e.2) := List.all_map
    have hentry : ∀ e ∈ m.entries,
        ((ofJson? ((outline α).without (c.under (.name e.1)) (toJson e.2)).reread).map fun v : α => (e.1, v)) =
          if (outline α).permits (c.under (.name e.1)) (toJson e.2) then
            (mapFloats? Json.Reading.again? (defaulted (c.under (.name e.1)) e.2)).map fun v => (e.1, v)
          else none := by
      intro e he
      rw [ofJson?_without (c.under (.name e.1)) (h e he)]
      split <;> rfl
    have hdefaulted : ((defaulted c m).entries.mapM fun e => (mapFloats? Json.Reading.again? e.2).map fun v => (e.1, v)) =
        m.entries.mapM fun e =>
          (mapFloats? Json.Reading.again? (defaulted (c.under (.name e.1)) e.2)).map fun v => (e.1, v) :=
      List.mapM_map (f := fun e : String × α => (e.1, defaulted (c.under (.name e.1)) e.2))
    rw [hwithout, hpermits]
    have hentries : (m.entries.map fun e => (e.1, ((outline α).without (c.under (.name e.1)) (toJson e.2)).reread)).mapM
          (fun m => (ofJson? m.2).map fun v : α => (m.1, v)) =
        if m.entries.all fun e => (outline α).permits (c.under (.name e.1)) (toJson e.2) then
          (defaulted c m).entries.mapM fun e => (mapFloats? Json.Reading.again? e.2).map fun v => (e.1, v)
        else none := by
      rw [mapM_map hentry, hdefaulted]
    refine (congrArg (Option.map KeyMap.ofList) hentries).trans ?_
    split <;> rfl

/-! ### Records -/

namespace Fields
variable {names : List String} {ms : List (String × Json)} {fs : List Outline.Field} {c : Choice} {name : String}

theorem keys_sublist (fs : List Outline.Field) (c : Choice) (ms : List (String × Json)) :
    ((ms.filterMap (Outline.keep? fs c)).map (·.1)).Sublist (ms.map (·.1)) := by
  induction ms with
  | nil => exact .slnil
  | cons m ms ih =>
    rw [List.filterMap_cons, Outline.keep?]
    by_cases hleft : c.leavesOut m.1 = true
    · rw [if_pos hleft]
      exact ih.cons m.1
    · rw [if_neg hleft]
      exact ih.cons_cons m.1

theorem get?_eq_none (h : name ∉ ms.map (·.1)) : get? ⟨ms⟩ name = none := by
  rw [get?, Option.map_eq_none_iff, List.find?_eq_none]
  intro m hm heq
  exact h (List.mem_map.mpr ⟨m, hm, of_decide_eq_true heq⟩)

theorem get?_filterMap (hdistinct : (ms.map (·.1)).Nodup) :
    get? ⟨ms.filterMap (Outline.keep? fs c)⟩ name =
      if c.leavesOut name then none
      else (get? ⟨ms⟩ name).map ((Outline.ofField fs name).without (c.under (.name name))) := by
  induction ms with
  | nil => exact (ite_self _).symm
  | cons m ms ih =>
    obtain ⟨k, v⟩ := m
    obtain ⟨hfirst, hdistinct⟩ := List.nodup_cons.mp hdistinct
    rw [List.filterMap_cons, Outline.keep?]
    by_cases hname : k = name
    · subst hname
      by_cases hleft : c.leavesOut k = true
      · -- The member is gone, and no later one has its name.
        rw [if_pos hleft, if_pos hleft]
        exact get?_eq_none fun h => hfirst ((keys_sublist fs c ms).subset h)
      · rw [if_neg hleft, if_neg hleft]
        simp
    · by_cases hleft : c.leavesOut k = true
      · rw [if_pos hleft, ih hdistinct]
        simp [hname]
      · rw [if_neg hleft]
        simp [hname, ih hdistinct]

theorem get?_map (f : Json → Json) (ms : List (String × Json)) :
    get? ⟨ms.map fun m => (m.1, f m.2)⟩ name = (get? ⟨ms⟩ name).map f := by
  induction ms with
  | nil => rfl
  | cons m ms ih =>
    rw [List.map_cons, get?_cons, get?_cons, ih]
    split <;> rfl

section
variable [Json.Reading]

/-- What the text of a record without the chosen fields is read as, field by field. -/
def reread (fs : List Outline.Field) (c : Choice) (ms : List (String × Json)) : Fields :=
  ⟨(ms.filterMap (Outline.keep? fs c)).map fun m => (m.1, m.2.reread)⟩

/-- What is left of a record is taken apart into the fields that stay. -/
theorem of?_without {β : Type} {read : Fields → Option β} {o : Option β} (hknown : ∀ m ∈ ms, m.1 ∈ names)
    (hdistinct : (ms.map (·.1)).Nodup) (hread : read (reread fs c ms) = if ms.all (Outline.fits fs c) then o else none) :
    (of? names ((Outline.record fs).without c (.object ms)).reread).bind read =
      if (Outline.record fs).permits c (.object ms) then o else none := by
  have hsub := keys_sublist fs c ms
  have hkeys : ((ms.filterMap (Outline.keep? fs c)).map fun m => (m.1, m.2.reread)).map (·.1) =
      (ms.filterMap (Outline.keep? fs c)).map (·.1) := by
    rw [List.map_map]
    rfl
  have hobject : ((Outline.record fs).without c (.object ms)).reread = .object (reread fs c ms).given :=
    Json.mapNumbers_object _
  rw [hobject]
  refine (of?_bind (fun m hm => ?_) (hkeys ▸ hdistinct.sublist hsub) read).trans hread
  obtain ⟨m', hm', hname⟩ := List.mem_map.mp (hsub.subset (hkeys ▸ List.mem_map_of_mem (f := fun m : String × Json => m.1) hm))
  exact hname ▸ hknown m' hm'

theorem get?_reread (hdistinct : (ms.map (·.1)).Nodup) :
    get? (reread fs c ms) name =
      if c.leavesOut name then none
      else (get? ⟨ms⟩ name).map fun j => ((Outline.ofField fs name).without (c.under (.name name)) j).reread := by
  rw [reread, get?_map, get?_filterMap hdistinct]
  split
  · rfl
  · rw [Option.map_map]
    rfl

variable {α : Type} [Wire α] [HasFloats α] [Outlined α] [MapFloats α] [Lenient α] {v : α}

theorem required?_without (hdistinct : (ms.map (·.1)).Nodup) (hget : get? ⟨ms⟩ name = some (toJson v))
    (houtline : Outline.ofField fs name = outline α) (hrequired : Outline.requires fs name = true) (hv : finite v = true) :
    required? (reread fs c ms) name =
      if Outline.fits fs c (name, toJson v) then mapFloats? Json.Reading.again? (c.given name v) else none := by
  rw [required?, get?_reread hdistinct, hget, Outline.fits, houtline, hrequired]
  dsimp only
  cases c.leavesOut name with
  | true => rfl
  | false => exact ofJson?_without _ hv

theorem optional?_without {d : α} (hdistinct : (ms.map (·.1)).Nodup) (hget : get? ⟨ms⟩ name = some (toJson v))
    (houtline : Outline.ofField fs name = outline α) (hrequired : Outline.requires fs name = false)
    (hd : floats d = []) (hv : finite v = true) :
    optional? (reread fs c ms) name d =
      if Outline.fits fs c (name, toJson v) then mapFloats? Json.Reading.again? (c.kept name v d) else none := by
  rw [optional?, get?_reread hdistinct, hget, Outline.fits, houtline, hrequired, Choice.kept]
  dsimp only
  cases c.leavesOut name with
  | true => exact (mapFloats?_of_floats_eq_nil hd).symm
  | false => exact ofJson?_without _ hv

theorem required?_plain (hfloats : ∀ v : α, floats v = []) (hdistinct : (ms.map (·.1)).Nodup)
    (hget : get? ⟨ms⟩ name = some (toJson v)) (houtline : Outline.ofField fs name = outline α)
    (hrequired : Outline.requires fs name = true) :
    required? (reread fs c ms) name = if Outline.fits fs c (name, toJson v) then some (c.given name v) else none := by
  rw [required?_without hdistinct hget houtline hrequired (finite_of_floats_eq_nil (hfloats v)),
    mapFloats?_of_floats_eq_nil (hfloats _)]

theorem optional?_plain {d : α} (hfloats : ∀ v : α, floats v = []) (hdistinct : (ms.map (·.1)).Nodup)
    (hget : get? ⟨ms⟩ name = some (toJson v)) (houtline : Outline.ofField fs name = outline α)
    (hrequired : Outline.requires fs name = false) :
    optional? (reread fs c ms) name d = if Outline.fits fs c (name, toJson v) then some (c.kept name v d) else none := by
  rw [optional?_without hdistinct hget houtline hrequired (hfloats d) (finite_of_floats_eq_nil (hfloats v)),
    mapFloats?_of_floats_eq_nil (hfloats _)]

end

/-- A record is read field after field, up to the first one that may not be treated as it is chosen. -/
theorem bind_fits {β γ : Type} {o a : Option β} {read read' : β → Option γ} {m : String × Json}
    {rest : List (String × Json)} (ho : o = if Outline.fits fs c m then a else none)
    (hrest : ∀ b, read b = if rest.all (Outline.fits fs c) then read' b else none) :
    o.bind read = if (m :: rest).all (Outline.fits fs c) then a.bind read' else none := by
  rw [ho, List.all_cons, funext hrest]
  cases Outline.fits fs c m with
  | true => cases rest.all (Outline.fits fs c) <;> cases a <;> rfl
  | false => rfl

theorem bind_fits_some {β γ : Type} {o : Option β} {b : β} {w : Option γ} {read : β → Option γ} {m : String × Json}
    {rest : List (String × Json)} (ho : o = if Outline.fits fs c m then some b else none)
    (hrest : read b = if rest.all (Outline.fits fs c) then w else none) :
    o.bind read = if (m :: rest).all (Outline.fits fs c) then w else none := by
  rw [ho, List.all_cons]
  cases Outline.fits fs c m with
  | true => exact hrest
  | false => rfl

end Fields
end Intendant.Wire

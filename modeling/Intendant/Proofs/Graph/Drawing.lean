import Mathlib.Data.List.Infix
import Intendant.Graph.Dot
import Intendant.Proofs.Graph.Basic

/-! # Drawings by their strokes

The text of a drawing is a line for each of its strokes between a first and a last line (`toList_dot`). In a line, texts stand
between double quotes. The label of a box is softened, so nothing in it ends such a text or a line. The name of an action
stands in the label of an arrow as it is: a drawing can be read back into its lines, and these into their quoted texts, if
and only if no name of an action has a double quote or a line break (`dot_readable_iff`). -/

namespace Intendant
variable {ν : Type}

/-! ### Joined texts -/

section
variable {α : Type} {x c : α}

theorem intercalate_concat (x : α) (ls : List (List α)) (last : List α) :
    [x].intercalate (ls ++ [last]) = ls.flatMap (· ++ [x]) ++ last := by
  induction ls with
  | nil => exact List.intercalate_singleton
  | cons l ls ih =>
    obtain ⟨l', ls', h⟩ : ∃ l' ls', ls ++ [last] = l' :: ls' := List.exists_cons_of_ne_nil (by simp)
    rw [List.cons_append, h, List.intercalate_cons_cons, ← h, ih, List.flatMap_cons, List.append_assoc (l ++ [x])]

theorem mem_intercalate (hc : c ≠ x) {ls : List (List α)} : c ∈ [x].intercalate ls ↔ ∃ l ∈ ls, c ∈ l := by
  induction ls with
  | nil => simp
  | cons l ls ih =>
    cases ls with
    | nil => simp
    | cons l' ls =>
      have hl : c ∈ l ++ [x] ↔ c ∈ l := by simp [hc]
      rw [List.intercalate_cons_cons, List.mem_append, hl, ih, List.exists_mem_cons_iff _ l]

theorem not_of_mem_splitOnP {p : α → Bool} {xs l : List α} (h : l ∈ xs.splitOnP p) : ∀ c ∈ l, p c = false := by
  induction xs generalizing l with
  | nil =>
    rw [List.splitOnP_nil, List.mem_singleton] at h
    rw [h]
    exact List.forall_mem_nil _
  | cons y ys ih =>
    rw [List.splitOnP_cons_eq_if_modifyHead] at h
    split at h
    · rcases List.mem_cons.mp h with rfl | h
      · exact List.forall_mem_nil _
      · exact ih h
    · rename_i hy
      obtain ⟨first, rest, hys⟩ := List.exists_cons_of_ne_nil (List.splitOnP_ne_nil p ys)
      rw [hys, List.modifyHead_cons] at h
      rw [hys] at ih
      rcases List.mem_cons.mp h with rfl | h
      · exact List.forall_mem_cons.mpr ⟨Bool.eq_false_iff.mpr hy, ih List.mem_cons_self⟩
      · exact ih (List.mem_cons_of_mem first h)

/-- Joined texts are told apart again if and only if none of them has the separator. -/
theorem splitOn_intercalate_iff [BEq α] [LawfulBEq α] {ls : List (List α)} (hne : ls ≠ []) :
    ([x].intercalate ls).splitOn x = ls ↔ ∀ l ∈ ls, x ∉ l := by
  constructor
  · intro h l hl hx
    rw [← h, List.splitOn_eq_splitOnP] at hl
    exact beq_eq_false_iff_ne.mp (not_of_mem_splitOnP hl x hx) rfl
  · exact fun h => List.splitOn_intercalate x h hne

end

/-! ### Plain texts -/

/-- A text that ends neither a quoted text nor a line. -/
def Plain (cs : List Char) : Prop := '"' ∉ cs ∧ '\n' ∉ cs

instance : DecidablePred Plain := fun cs => inferInstanceAs (Decidable ('"' ∉ cs ∧ '\n' ∉ cs))

theorem Plain.of_forall {cs : List Char} (h : ∀ c ∈ cs, c ≠ '"' ∧ c ≠ '\n') : Plain cs :=
  ⟨fun hc => (h _ hc).1 rfl, fun hc => (h _ hc).2 rfl⟩

@[simp] theorem plain_append {cs ds : List Char} : Plain (cs ++ ds) ↔ Plain cs ∧ Plain ds := by
  simp only [Plain, List.mem_append, not_or]
  exact and_and_and_comm

theorem plain_softened (cs : List Char) : Plain (Graph.softened cs) := by
  refine .of_forall fun d hd => ?_
  obtain ⟨c, -, hc⟩ := List.mem_flatMap.mp hd
  split at hc
  · rw [List.mem_singleton.mp hc]
    decide
  · rename_i hquote
    split at hc
    · simp only [List.mem_cons, List.not_mem_nil, or_false] at hc
      rcases hc with rfl | rfl <;> decide
    · rename_i hbreak
      rw [List.mem_singleton.mp hc]
      exact ⟨hquote, hbreak⟩

theorem plain_label [Labelled ν] (value : ν) : Plain (Graph.label value) := by
  unfold Graph.label
  split <;> exact plain_softened _

theorem isDigit_of_mem_digits {n : Nat} {c : Char} (h : c ∈ Decimal.digits n) : c.isDigit = true :=
  Nat.isDigit_of_mem_toDigits (by decide) (by decide) h

/-- What digits and the other characters of a number with fixed places satisfy. -/
theorem forall_mem_fixed {P : Char → Prop} (hdigit : ∀ c, c.isDigit = true → P c)
    (hother : ∀ c ∈ ['-', '.', 'N', 'a', 'i', 'n', 'f'], P c) (places : Nat) (x : Float) :
    ∀ c ∈ Decimal.fixed places x, P c := by
  have hsign : ∀ c ∈ (if Decimal.isNegative x then ['-'] else []), P c := by
    split
    · exact List.forall_mem_singleton.mpr (hother '-' (by decide))
    · exact List.forall_mem_nil _
  have hdigits : ∀ n, ∀ c ∈ Decimal.digits n, P c := fun _ c hc => hdigit c (isDigit_of_mem_digits hc)
  have hzeros : ∀ n, ∀ c ∈ List.replicate n '0', P c := by
    intro n c hc
    rw [List.eq_of_mem_replicate hc]
    exact hdigit '0' (by decide)
  unfold Decimal.fixed
  dsimp only
  split
  · exact fun c hc => hother c ((by decide : ['N', 'a', 'N'] ⊆ _) hc)
  · split
    · exact List.forall_mem_append.mpr ⟨hsign, fun c hc => hother c ((by decide : ['i', 'n', 'f'] ⊆ _) hc)⟩
    · refine List.forall_mem_append.mpr ⟨List.forall_mem_append.mpr ⟨hsign, hdigits _⟩, ?_⟩
      split
      · exact List.forall_mem_nil _
      · exact List.forall_mem_cons.mpr ⟨hother '.' (by decide), List.forall_mem_append.mpr ⟨hzeros _, hdigits _⟩⟩

theorem ne_of_isDigit {c d : Char} (hc : c.isDigit = true) (hd : d.isDigit = false) : c ≠ d := by
  rintro rfl
  rw [hc] at hd
  cases hd

theorem plain_digits (n : Nat) : Plain (Decimal.digits n) := by
  refine .of_forall fun c hc => ?_
  have hdigit := isDigit_of_mem_digits hc
  exact ⟨ne_of_isDigit hdigit (by decide), ne_of_isDigit hdigit (by decide)⟩

theorem plain_fixed (places : Nat) (x : Float) : Plain (Decimal.fixed places x) :=
  .of_forall (forall_mem_fixed (fun _ h => ⟨ne_of_isDigit h (by decide), ne_of_isDigit h (by decide)⟩) (by simp) places x)

/-! ### Strokes -/

/-- What one line of a drawing draws. -/
inductive Stroke where
  | box (id : Nat) (label : List Char)
  | arrow (source target : Nat) (label : List Char) (stressed : Bool)

namespace Stroke

/-- The name of a vertex in a drawing. -/
def name (id : Nat) : List Char := 'n' :: Decimal.digits id

/-- The texts between the double quotes of a line. -/
def pieces : Stroke → List (List Char)
  | box id label => [[], name id, " [label=".toList, label, " shape=box];".toList]
  | arrow source target label stressed =>
    [[], name source, " -> ".toList, name target, " [label=".toList, label, " color=".toList,
      (if stressed then "#0068b5" else "#262626").toList, (if stressed then " penwidth=2];" else " penwidth=1];").toList]

/-- The elements at odd places. -/
def odd {α : Type} : List α → List α
  | _ :: y :: rest => y :: odd rest
  | _ => []

/-- The quoted texts of a line. -/
def quoted (s : Stroke) : List (List Char) := odd s.pieces

/-- The line itself. -/
def text (s : Stroke) : List Char := ['"'].intercalate s.pieces

/-- The label of what is drawn. -/
def label : Stroke → List Char
  | box _ label => label
  | arrow _ _ label _ => label

/-- The arrow of an edge. It is stressed if its ends follow each other in the path. -/
def ofEdge (path : List Nat) (source : Nat) (e : Edge Float) : Stroke :=
  arrow source e.target (e.action.name.toList ++ " - ".toList ++ Decimal.fixed 6 e.utility)
    (decide ([source, e.target] <:+: path))

theorem plain_name (id : Nat) : Plain (name id) := plain_append.mpr ⟨(by decide : Plain ['n']), plain_digits id⟩

theorem forall_plain_pieces {s : Stroke} : (∀ cs ∈ s.pieces, Plain cs) ↔ Plain s.label := by
  cases s with
  | box id label =>
    have hlabel : Plain " [label=".toList := by decide
    have hshape : Plain " shape=box];".toList := by decide
    have hempty : Plain [] := by decide
    simp only [pieces, List.forall_mem_cons, hempty, plain_name, hlabel, hshape, true_and, List.not_mem_nil,
      false_imp_iff, implies_true, and_true]
    rfl
  | arrow source target label stressed =>
    have hto : Plain " -> ".toList := by decide
    have hlabel : Plain " [label=".toList := by decide
    have hcolor : Plain " color=".toList := by decide
    have hempty : Plain [] := by decide
    have hstyle : Plain (if stressed then "#0068b5" else "#262626").toList ∧
        Plain (if stressed then " penwidth=2];" else " penwidth=1];").toList := by
      cases stressed <;> decide
    simp only [pieces, List.forall_mem_cons, hempty, plain_name, hto, hlabel, hcolor, hstyle.1, hstyle.2, true_and,
      List.not_mem_nil, false_imp_iff, implies_true, and_true]
    rfl

/-- A line is read back into its pieces, and is one line, if and only if its label is plain. -/
theorem readable_iff {s : Stroke} : (s.text.splitOn '"' = s.pieces ∧ '\n' ∉ s.text) ↔ Plain s.label := by
  have hne : s.pieces ≠ [] := by cases s <;> simp [pieces]
  rw [← forall_plain_pieces, text, splitOn_intercalate_iff hne, mem_intercalate (by decide)]
  simp only [Plain, not_exists, not_and]
  exact forall₂_and.symm

end Stroke

namespace Graph
variable [Labelled ν] {g : Graph ν Float} {path : List Nat}

/-- The strokes of a drawing: for every vertex with edges its box, and behind it the arrows of its edges. -/
def strokes (path : List Nat) (g : Graph ν Float) : List Stroke :=
  g.values.zipIdx.flatMap fun (value, id) =>
    if (g.successors id).isEmpty then []
    else .box id (label value ++ "\\l".toList) :: (g.successors id).map (.ofEdge path id)

theorem stressed_eq (source target : Nat) (path : List Nat) :
    stressed source target path = decide ([source, target] <:+: path) := by
  rw [Bool.eq_iff_iff, decide_eq_true_iff]
  fun_induction stressed source target path with
  | case1 a b rest ih =>
    rw [List.infix_cons_iff, List.cons_prefix_cons, List.cons_prefix_cons, Bool.or_eq_true, Bool.and_eq_true,
      decide_eq_true_iff, decide_eq_true_iff, ih, eq_comm (a := a), eq_comm (a := b)]
    simp
  | case2 path hshort =>
    refine iff_of_false Bool.false_ne_true fun h => ?_
    match path, hshort, h.length_le with
    | a :: b :: rest, hshort, _ => exact hshort a b rest rfl

theorem text_box (id : Nat) (value : ν) : (Stroke.box id (label value ++ "\\l".toList)).text = vertexLine id value := by
  simp [Stroke.text, Stroke.pieces, Stroke.name, vertexLine, vertexName, List.intercalate_cons_cons]

theorem text_ofEdge (path : List Nat) (source : Nat) (e : Edge Float) :
    (Stroke.ofEdge path source e).text = edgeLine path source e := by
  rw [edgeLine, stressed_eq, Stroke.ofEdge]
  cases decide ([source, e.target] <:+: path) <;>
    simp [Stroke.text, Stroke.pieces, Stroke.name, vertexName, List.intercalate_cons_cons]

theorem dotBody_eq (path : List Nat) (g : Graph ν Float) : g.dotBody path = (g.strokes path).map Stroke.text := by
  rw [dotBody, strokes, values, List.zipIdx_map, List.flatMap_map, List.map_flatMap]
  refine List.flatMap_congr ?_
  rintro ⟨v, id⟩ hv
  have hsuccessors : g.successors id = v.edges.toList := by
    have hid : g.vertices[id]? = some v := by simpa using List.mem_zipIdx_iff_getElem?.mp hv
    rw [successors, hid]
  simp only [vertexLines, Prod.map, id_eq, hsuccessors, Array.isEmpty_toList]
  split
  · rfl
  · rw [List.map_cons, text_box, List.map_map]
    exact congrArg _ (List.map_congr_left fun e _ => (text_ofEdge path id e).symm)

theorem mem_strokes {s : Stroke} : s ∈ g.strokes path ↔ ∃ id value, g.value? id = some value ∧ g.successors id ≠ [] ∧
    (s = .box id (label value ++ "\\l".toList) ∨ ∃ e ∈ g.successors id, s = .ofEdge path id e) := by
  simp only [strokes, List.mem_flatMap, Prod.exists, List.mem_zipIdx_iff_getElem?, getElem?_values]
  rw [exists_comm]
  refine exists_congr fun id => exists_congr fun value => and_congr_right fun _ => ?_
  cases g.successors id with
  | nil => simp
  | cons e es =>
    simp only [List.isEmpty_cons, Bool.false_eq_true, if_false, List.mem_cons, List.mem_map, ne_eq, reduceCtorEq,
      not_false_eq_true, true_and]
    exact or_congr_right (exists_congr fun _ => and_congr_right fun _ => eq_comm)

/-- The lines of a drawing. -/
def dotLines (path : List Nat) (g : Graph ν Float) : List (List Char) :=
  "digraph plan \x7b".toList :: (g.strokes path).map Stroke.text ++ [['\x7d']]

theorem toList_dot (g : Graph ν Float) (path : List Nat) : (g.dot path).toList = ['\n'].intercalate (g.dotLines path) := by
  have hfirst : "digraph plan \x7b\n".toList = "digraph plan \x7b".toList ++ ['\n'] := by decide
  have hdot : (g.dot path).toList =
      "digraph plan \x7b\n".toList ++ (g.dotBody path).flatMap (· ++ ['\n']) ++ ['\x7d'] := String.toList_ofList
  rw [hdot, hfirst, dotBody_eq, dotLines, intercalate_concat, List.flatMap_cons]

theorem getLast?_name (id : Nat) : (Stroke.name id).getLast? ≠ some '\\' := by
  intro h
  rcases List.mem_cons.mp (List.mem_of_getLast? h) with heq | hdigit
  · exact absurd heq (by decide)
  · exact ne_of_isDigit (isDigit_of_mem_digits hdigit) (by decide) rfl

theorem getLast?_append_fixed (cs : List Char) (places : Nat) (x : Float) :
    (cs ++ " - ".toList ++ Decimal.fixed places x).getLast? ≠ some '\\' := by
  rw [List.getLast?_append, List.getLast?_append]
  intro h
  cases hlast : (Decimal.fixed places x).getLast? with
  | none =>
    rw [hlast] at h
    exact absurd h (by simp)
  | some c =>
    rw [hlast] at h
    cases h
    have hfixed : ∀ c ∈ Decimal.fixed places x, c ≠ '\\' :=
      forall_mem_fixed (fun _ hc => ne_of_isDigit hc (by decide)) (by simp) places x
    exact hfixed _ (List.mem_of_getLast? hlast) rfl

/-- No quoted text ends in a backslash, which would take the closing quote for a part of the text. -/
theorem getLast?_quoted {s : Stroke} (hs : s ∈ g.strokes path) : ∀ cs ∈ s.quoted, cs.getLast? ≠ some '\\' := by
  obtain ⟨id, value, -, -, rfl | ⟨e, -, rfl⟩⟩ := mem_strokes.mp hs
  · have hlabel : (label value ++ "\\l".toList).getLast? ≠ some '\\' := by simp
    simp only [Stroke.quoted, Stroke.pieces, Stroke.odd, List.forall_mem_cons]
    exact ⟨getLast?_name id, hlabel, List.forall_mem_nil _⟩
  · have hcolor : ∀ b : Bool, (if b then "#0068b5" else "#262626").toList.getLast? ≠ some '\\' := by decide
    simp only [Stroke.quoted, Stroke.ofEdge, Stroke.pieces, Stroke.odd, List.forall_mem_cons]
    exact ⟨getLast?_name id, getLast?_name e.target, getLast?_append_fixed _ 6 e.utility, hcolor _, List.forall_mem_nil _⟩

/-- The strokes have plain labels if and only if the actions have plain names. -/
theorem plain_strokes_iff : (∀ s ∈ g.strokes path, Plain s.label) ↔ ∀ u, ∀ e ∈ g.successors u, Plain e.action.name.toList := by
  have hsep : Plain " - ".toList := by decide
  constructor
  · intro h u e he
    obtain ⟨value, hvalue⟩ := exists_value? (lt_size_of_mem_successors he)
    have hlabel := h _ (mem_strokes.mpr ⟨u, value, hvalue, List.ne_nil_of_mem he, .inr ⟨e, he, rfl⟩⟩)
    exact (plain_append.mp (plain_append.mp hlabel).1).1
  · intro h s hs
    obtain ⟨id, value, -, -, rfl | ⟨e, he, rfl⟩⟩ := mem_strokes.mp hs
    · exact plain_append.mpr ⟨plain_label value, by decide⟩
    · exact plain_append.mpr ⟨plain_append.mpr ⟨h id e he, hsep⟩, plain_fixed 6 e.utility⟩

theorem readable_strokes_iff : ((g.dot path).toList.splitOn '\n' = g.dotLines path ∧
    ∀ s ∈ g.strokes path, s.text.splitOn '"' = s.pieces) ↔ ∀ s ∈ g.strokes path, Plain s.label := by
  have hfirst : '\n' ∉ "digraph plan \x7b".toList := by decide
  have hlast : '\n' ∉ ['\x7d'] := by decide
  rw [toList_dot, splitOn_intercalate_iff (by simp [dotLines]), dotLines, List.cons_append, List.forall_mem_cons,
    List.forall_mem_append, List.forall_mem_singleton, List.forall_mem_map]
  simp only [← Stroke.readable_iff]
  constructor
  · rintro ⟨⟨-, hlines, -⟩, hpieces⟩ s hs
    exact ⟨hpieces s hs, hlines s hs⟩
  · exact fun h => ⟨⟨hfirst, fun s hs => (h s hs).2, hlast⟩, fun s hs => (h s hs).1⟩

theorem readable_box {id : Nat} {text : List Char} (hs : Stroke.box id text ∈ g.strokes path) :
    (Stroke.box id text).text.splitOn '"' = (Stroke.box id text).pieces ∧ '\n' ∉ (Stroke.box id text).text := by
  refine Stroke.readable_iff.mpr ?_
  obtain ⟨id', value, -, -, hbox | ⟨e, -, he⟩⟩ := mem_strokes.mp hs
  · cases hbox
    exact plain_append.mpr ⟨plain_label value, by decide⟩
  · cases he

/-- The text of a drawing is its lines: between the first and the last one there is a box for every vertex with edges, in the
    order of the ids, and behind a box the arrows of the edges in their order, which are stressed where the path has their ends
    one after the other. Boxes can always be read back, and no closing quote is escaped. All lines can be told apart and be
    read back into their quoted texts if and only if no name of an action has a double quote or a line break. -/
theorem dot_readable_iff (g : Graph ν Float) (path : List Nat) :
    (g.dot path).toList = ['\n'].intercalate (g.dotLines path) ∧
      (∀ id text, Stroke.box id text ∈ g.strokes path →
        (Stroke.box id text).text.splitOn '"' = (Stroke.box id text).pieces ∧ '\n' ∉ (Stroke.box id text).text) ∧
      (∀ s ∈ g.strokes path, ∀ cs ∈ s.quoted, cs.getLast? ≠ some '\\') ∧
      (((g.dot path).toList.splitOn '\n' = g.dotLines path ∧ ∀ s ∈ g.strokes path, s.text.splitOn '"' = s.pieces) ↔
        ∀ u, ∀ e ∈ g.successors u, '"' ∉ e.action.name.toList ∧ '\n' ∉ e.action.name.toList) :=
  ⟨toList_dot g path, fun _ _ hs => readable_box hs, fun _ hs => getLast?_quoted hs,
    readable_strokes_iff.trans plain_strokes_iff⟩

/-- An edge whose action has a double quote in its name. -/
def quoting : Edge Float := ⟨1, 1.0, ⟨"a\x22b", .none⟩⟩

/-- The name of an action ends the quoted text that it stands in. -/
theorem dot_breaks_quote :
    let g : Graph State Float := ((empty.addVertex {}).addVertex {}).addEdge 0 1 quoting.utility quoting.action
    ∃ s ∈ g.strokes [], "\x22n0\x22 -> \x22n1\x22 [label=\x22a\x22b - ".toList <+: s.text ∧ s.text.splitOn '"' ≠ s.pieces := by
  intro g
  have hmem : quoting ∈ g.successors 0 := mem_successors_addEdge.mpr (.inr ⟨by decide, by decide, rfl, rfl⟩)
  have hstroke : Stroke.ofEdge [] 0 quoting ∈ g.strokes [] :=
    mem_strokes.mpr ⟨0, {}, by decide, List.ne_nil_of_mem hmem, .inr ⟨quoting, hmem, rfl⟩⟩
  refine ⟨_, hstroke, ⟨_, rfl⟩, fun h => ?_⟩
  have hpieces := (splitOn_intercalate_iff (by simp [Stroke.ofEdge, Stroke.pieces])).mp h
  exact hpieces (Stroke.ofEdge [] 0 quoting).label (by simp [Stroke.ofEdge, Stroke.pieces, Stroke.label])
    (by simp [Stroke.ofEdge, Stroke.label, quoting])

end Graph
end Intendant

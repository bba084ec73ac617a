import Intendant.Decimal.Layout
import Intendant.Graph.Basic
import Intendant.State.Basic
import Intendant.Text.Quoted

/-! # Graphs as dot text

A graph is drawn as one line per vertex that has edges, each followed by a line per edge. A drawing may
stress a path: the edges between neighbours in it are wider and coloured. -/

namespace Intendant

/-- A type whose values label the vertices of a drawing. -/
class Labelled (ν : Type) where
  /-- The document that stands in the label, if the value has one. -/
  document? : ν → Option Json
  /-- The text that stands in the label of a value without a document. -/
  fallback : ν → List Char

instance : Labelled State where
  document? s := some (Wire.toJson s)
  fallback _ := []

namespace Graph
variable {ν : Type} [Labelled ν]

/-- A text that stands between the quotes of a label: double quotes become single ones, and a line break
    becomes the mark of a left-aligned line. -/
def softened (cs : List Char) : List Char :=
  cs.flatMap fun c => if c = '"' then ['\x27'] else if c = '\n' then ['\\', 'l'] else [c]

/-- The text of a vertex: its value's document, or a stand-in where it has none. -/
def label (value : ν) : List Char :=
  match Labelled.document? value with
  | some j => softened (Json.prettyChars 0 j)
  | none => softened (Labelled.fallback value)

/-- The name under which a vertex is drawn. -/
def vertexName (id : Nat) : List Char := ['"', 'n'] ++ Decimal.digits id ++ ['"']

/-- Whether two vertices are neighbours in a path. -/
def stressed (source target : Nat) : List Nat → Bool
  | a :: b :: rest => a = source && b = target || stressed source target (b :: rest)
  | _ => false

/-- The line that draws a vertex. -/
def vertexLine (id : Nat) (value : ν) : List Char :=
  vertexName id ++ " [label=\"".toList ++ label value ++ "\\l\" shape=box];".toList

/-- The line that draws an edge, stressed where it lies on the path. -/
def edgeLine (path : List Nat) (source : Nat) (e : Edge Float) : List Char :=
  let style := if stressed source e.target path then "\" color=\"#0068b5\" penwidth=2];"
    else "\" color=\"#262626\" penwidth=1];"
  vertexName source ++ " -> ".toList ++ vertexName e.target ++ " [label=\"".toList ++ e.action.name.toList ++
    " - ".toList ++ Decimal.fixed 6 e.utility ++ style.toList

/-- The lines of one vertex and of its edges. A vertex without edges has none. -/
def vertexLines (path : List Nat) (id : Nat) (v : Vertex ν Float) : List (List Char) :=
  if v.edges.isEmpty then []
  else vertexLine id v.value :: v.edges.toList.map (edgeLine path id)

/-- The lines of a drawing between its first and its last line. -/
def dotBody (path : List Nat) (g : Graph ν Float) : List (List Char) :=
  g.vertices.toList.zipIdx.flatMap fun (v, id) => vertexLines path id v

/-- The whole drawing, with a path stressed. -/
def dot (g : Graph ν Float) (path : List Nat) : String :=
  String.ofList ("digraph plan \x7b\n".toList ++ (g.dotBody path).flatMap (· ++ ['\n']) ++ ['\x7d'])

end Graph
end Intendant

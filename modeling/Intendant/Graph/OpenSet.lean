import Intendant.Graph.Cost

/-! # Open sets

An open set holds values with priorities. The least priority is taken first, and of equal ones the value
that was added first: the entries are kept in the order in which they will be taken. -/

namespace Intendant

/-- Values with their priorities, in the order in which they are taken. -/
structure OpenSet (α κ : Type) where
  entries : List (κ × α)

namespace OpenSet
variable {α κ : Type} [Cost κ]

/-- The set that holds nothing. -/
def empty : OpenSet α κ := ⟨[]⟩

/-- Places an entry behind all that may be taken before it. -/
def place (p : κ) (v : α) : List (κ × α) → List (κ × α)
  | [] => [(p, v)]
  | (q, w) :: rest => if Cost.notAfter q p then (q, w) :: place p v rest else (p, v) :: (q, w) :: rest

/-- Adds a value with its priority; a value may be held more than once. -/
def push (s : OpenSet α κ) (v : α) (p : κ) : OpenSet α κ := ⟨place p v s.entries⟩

/-- Takes the first entry out. -/
def pop? (s : OpenSet α κ) : Option ((α × κ) × OpenSet α κ) :=
  match s.entries with
  | [] => none
  | (p, v) :: rest => some ((v, p), ⟨rest⟩)

/-- The number of entries. -/
def size (s : OpenSet α κ) : Nat := s.entries.length

/-- Whether no entry is left. -/
def isEmpty (s : OpenSet α κ) : Bool := s.entries.isEmpty

/-- All values in the order in which they are taken. -/
def toList (s : OpenSet α κ) : List α := s.entries.map (·.2)

end OpenSet
end Intendant

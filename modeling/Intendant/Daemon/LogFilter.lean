/-! # Log filters

A filter is a list of directives, each with a level for the targets that begin with a text. The directive with
the longest text decides, and of two with the same text the later one. -/

namespace Intendant

/-- How urgent a log line is, from nothing at all to everything. -/
inductive LogLevel where
  | off
  | error
  | warn
  | info
  | debug
  | trace
deriving DecidableEq, Repr

namespace LogLevel

/-- Levels in the order of the amount of lines that they let pass. -/
def rank : LogLevel → Nat
  | off => 0
  | error => 1
  | warn => 2
  | info => 3
  | debug => 4
  | trace => 5

/-- The level of a name in any case, or of its rank. The empty text stands for errors. -/
def ofText? (text : String) : Option LogLevel :=
  match String.ofList (text.toList.map Char.toLower) with
  | "off" | "0" => some off
  | "error" | "1" | "" => some error
  | "warn" | "2" => some warn
  | "info" | "3" => some info
  | "debug" | "4" => some debug
  | "trace" | "5" => some trace
  | _ => none

end LogLevel

/-- The level for the targets that begin with a text. -/
structure LogDirective where
  target : List Char
  level : LogLevel
deriving DecidableEq, Repr

/-- Which log lines are written. -/
abbrev LogFilter := List LogDirective

namespace LogDirective

/-- Reads a directive: a level, a target, or both with an equals sign between them. -/
def ofText? (text : List Char) : Option LogDirective :=
  let start := text.takeWhile (· ≠ '=')
  match text with
  | [] => none
  | c :: _ =>
    if !(c.isAlphanum || c = '-' || c = ':' || c = '_') || text.elem '[' then none
    else
      match text.drop start.length with
      | [] =>
        match LogLevel.ofText? (String.ofList start) with
        | some level => some ⟨[], level⟩
        | none => some ⟨start, .trace⟩
      | _ :: level => (LogLevel.ofText? (String.ofList level)).map fun l => ⟨start, l⟩

end LogDirective

namespace LogFilter

/-- The filter for lines of one level and the more urgent ones. -/
def ofLevel (level : LogLevel) : LogFilter := [⟨[], level⟩]

/-- The parts of a text between commas. -/
def parts : List Char → List Char → List (List Char)
  | [], part => [part.reverse]
  | ',' :: rest, part => part.reverse :: parts rest []
  | c :: rest, part => parts rest (c :: part)

/-- A text without the blanks around it. -/
def trimmed (text : List Char) : List Char :=
  ((text.dropWhile Char.isWhitespace).reverse.dropWhile Char.isWhitespace).reverse

/-- Reads a filter. The empty one lets errors pass. -/
def parse? (text : String) : Option LogFilter :=
  match (parts text.toList []).filter (!·.isEmpty) with
  | [] => some (ofLevel .error)
  | directives => directives.mapM fun d => LogDirective.ofText? (trimmed d)

/-- Reads a filter. One that cannot be read lets pass what is informative. -/
def ofText (text : String) : LogFilter := (parse? text).getD (ofLevel .info)

/-- The more specific of two directives, or the later one. -/
def sharper (d e : LogDirective) : LogDirective := if e.target.length < d.target.length then d else e

/-- The level for a target. -/
def levelOf (f : LogFilter) (target : String) : LogLevel :=
  match f.filter fun d => d.target.isPrefixOf target.toList with
  | [] => .off
  | d :: ds => (ds.foldl sharper d).level

/-- Whether a line of a target and a level is logged. -/
def passes (f : LogFilter) (target : String) (level : LogLevel) : Bool := level.rank ≤ (f.levelOf target).rank

end LogFilter
end Intendant

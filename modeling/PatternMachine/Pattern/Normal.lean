import PatternMachine.Pattern.Basic

/-!
# Normal patterns

A star directly around a star, however many one-item groups stand between them, repeats nothing
that the inner one does not. The normal form drops the outer of two such stars everywhere outside
repetitions without bounds.
-/

namespace PatternMachine

namespace Pattern

/-- The item inside any number of one-item groups. -/
def ungrouped : Pattern → Pattern
  | .sequence [item] => item.ungrouped
  | pattern => pattern

/-- Zero or more of a body; a star alone in the body already is that. -/
def star (body : Pattern) : Pattern :=
  match body.ungrouped with
  | .repetition .zeroOrMore inner => .repetition .zeroOrMore inner
  | _ => .repetition .zeroOrMore body

mutual

/-- The normal form, from the inside out. -/
def normal : Pattern → Pattern
  | .sequence items => .sequence (normalAll items)
  | .alternative first second => .alternative first.normal second.normal
  | .repetition .oneOrMore body => .repetition .oneOrMore body.normal
  | .repetition .zeroOrMore body => star body.normal
  | .repetition .zeroOrOne body => .repetition .zeroOrOne body.normal
  | pattern => pattern

def normalAll : List Pattern → List Pattern
  | [] => []
  | item :: rest => item.normal :: normalAll rest

end

end Pattern

end PatternMachine

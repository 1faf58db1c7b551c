import PatternMachine.Pattern.Basic

/-!
# Written patterns

The text form of a tree: the name of each node with its parts in brackets. A literal shows its
symbol quoted, or by its code point when it is not printable; a tree with an unprintable literal
that is not one character has no text form.
-/

namespace PatternMachine

namespace Quantifier

def label : Quantifier → String
  | .oneOrMore => "Plus"
  | .zeroOrMore => "Star"
  | .zeroOrOne => "Question"
  | .unspecified => "Repeat"

end Quantifier

namespace Pattern

def label : Pattern → String
  | .literal _ => "Char"
  | .wildcard => "Dot"
  | .lineStart => "LineStart"
  | .lineEnd => "LineEnd"
  | .sequence _ => "Sequence"
  | .alternative _ _ => "Disjunction"
  | .repetition quantifier _ => quantifier.label

def commaSeparated : List String → String
  | [] => ""
  | [text] => text
  | text :: rest => text ++ ", " ++ commaSeparated rest

mutual

/-- The text form of a tree, unless a literal in it cannot be named. -/
def written : Pattern → Except Uncoded String
  | .literal symbol =>
      match symbol.named Text.quote with
      | .ok name => .ok ("Char(" ++ name ++ ")")
      | .error problem => .error problem
  | .wildcard => .ok "Dot()"
  | .lineStart => .ok "LineStart()"
  | .lineEnd => .ok "LineEnd()"
  | .sequence items =>
      match writtenAll items with
      | .ok texts => .ok ("Sequence([" ++ commaSeparated texts ++ "])")
      | .error problem => .error problem
  | .alternative first second =>
      match first.written with
      | .ok left =>
          match second.written with
          | .ok right => .ok ("Disjunction(" ++ left ++ ", " ++ right ++ ")")
          | .error problem => .error problem
      | .error problem => .error problem
  | .repetition quantifier body =>
      match body.written with
      | .ok text => .ok (quantifier.label ++ "(" ++ text ++ ")")
      | .error problem => .error problem

/-- The text forms of several trees; the first that has none decides. -/
def writtenAll : List Pattern → Except Uncoded (List String)
  | [] => .ok []
  | item :: rest =>
      match item.written with
      | .ok text =>
          match writtenAll rest with
          | .ok texts => .ok (text :: texts)
          | .error problem => .error problem
      | .error problem => .error problem

end

theorem written_literal (symbol : Symbol) :
    (literal symbol).written =
      match symbol.named Text.quote with
      | .ok name => .ok ("Char(" ++ name ++ ")")
      | .error problem => .error problem :=
  rfl

theorem written_sequence (items : List Pattern) :
    (sequence items).written =
      match writtenAll items with
      | .ok texts => .ok ("Sequence([" ++ commaSeparated texts ++ "])")
      | .error problem => .error problem :=
  rfl

theorem written_alternative (first second : Pattern) :
    (alternative first second).written =
      match first.written with
      | .ok left =>
          match second.written with
          | .ok right => .ok ("Disjunction(" ++ left ++ ", " ++ right ++ ")")
          | .error problem => .error problem
      | .error problem => .error problem :=
  rfl

theorem written_repetition (quantifier : Quantifier) (body : Pattern) :
    (repetition quantifier body).written =
      match body.written with
      | .ok text => .ok (quantifier.label ++ "(" ++ text ++ ")")
      | .error problem => .error problem :=
  rfl

theorem writtenAll_cons (item : Pattern) (rest : List Pattern) :
    writtenAll (item :: rest) =
      match item.written with
      | .ok text =>
          match writtenAll rest with
          | .ok texts => .ok (text :: texts)
          | .error problem => .error problem
      | .error problem => .error problem :=
  rfl

end Pattern

end PatternMachine

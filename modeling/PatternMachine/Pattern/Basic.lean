import PatternMachine.Text.Symbol

/-!
# Patterns

The tree of a pattern. Literals and the wildcard consume one symbol, the two anchors none;
sequences may hold any number of items, and the first side of an alternative is preferred.
Equality of trees is decidable.
-/

namespace PatternMachine

inductive Quantifier where
  | oneOrMore
  | zeroOrMore
  | zeroOrOne
  /-- No bounds are given; such a repetition can be written and walked but has no code. -/
  | unspecified
  deriving DecidableEq

inductive Pattern where
  /-- Consumes one symbol equal to the given one. -/
  | literal (symbol : Symbol)
  /-- Consumes any one symbol. -/
  | wildcard
  /-- Holds at the start of the line. -/
  | lineStart
  /-- Holds at the end of the input. -/
  | lineEnd
  /-- The items one after another. -/
  | sequence (items : List Pattern)
  /-- One of the two sides, the first preferred. -/
  | alternative (first second : Pattern)
  /-- The body as often as the quantifier allows. -/
  | repetition (quantifier : Quantifier) (body : Pattern)

namespace Pattern

mutual

def decEq (a b : Pattern) : Decidable (a = b) :=
  match a with
  | .literal s =>
      match b with
      | .literal t => if h : s = t then isTrue (by rw [h]) else isFalse (by simp [h])
      | .wildcard | .lineStart | .lineEnd | .sequence _ | .alternative _ _ | .repetition _ _ =>
          isFalse (by simp)
  | .wildcard =>
      match b with
      | .wildcard => isTrue rfl
      | .literal _ | .lineStart | .lineEnd | .sequence _ | .alternative _ _ | .repetition _ _ =>
          isFalse (by simp)
  | .lineStart =>
      match b with
      | .lineStart => isTrue rfl
      | .literal _ | .wildcard | .lineEnd | .sequence _ | .alternative _ _ | .repetition _ _ =>
          isFalse (by simp)
  | .lineEnd =>
      match b with
      | .lineEnd => isTrue rfl
      | .literal _ | .wildcard | .lineStart | .sequence _ | .alternative _ _ | .repetition _ _ =>
          isFalse (by simp)
  | .sequence items =>
      match b with
      | .sequence others =>
          match decEqAll items others with
          | .isTrue h => isTrue (by rw [h])
          | .isFalse h => isFalse (by simp [h])
      | .literal _ | .wildcard | .lineStart | .lineEnd | .alternative _ _ | .repetition _ _ =>
          isFalse (by simp)
  | .alternative first second =>
      match b with
      | .alternative first' second' =>
          match decEq first first' with
          | .isTrue h =>
              match decEq second second' with
              | .isTrue h' => isTrue (by rw [h, h'])
              | .isFalse h' => isFalse (by simp [h'])
          | .isFalse h => isFalse (by simp [h])
      | .literal _ | .wildcard | .lineStart | .lineEnd | .sequence _ | .repetition _ _ =>
          isFalse (by simp)
  | .repetition quantifier body =>
      match b with
      | .repetition quantifier' body' =>
          if h : quantifier = quantifier' then
            match decEq body body' with
            | .isTrue h' => isTrue (by rw [h, h'])
            | .isFalse h' => isFalse (by simp [h'])
          else isFalse (by simp [h])
      | .literal _ | .wildcard | .lineStart | .lineEnd | .sequence _ | .alternative _ _ =>
          isFalse (by simp)

def decEqAll (as bs : List Pattern) : Decidable (as = bs) :=
  match as with
  | [] =>
      match bs with
      | [] => isTrue rfl
      | _ :: _ => isFalse (by simp)
  | a :: as =>
      match bs with
      | [] => isFalse (by simp)
      | b :: bs =>
          match decEq a b with
          | .isTrue h =>
              match decEqAll as bs with
              | .isTrue h' => isTrue (by rw [h, h'])
              | .isFalse h' => isFalse (by simp [h'])
          | .isFalse h => isFalse (by simp [h])

end

instance : DecidableEq Pattern := decEq

/-- The direct parts of a tree in reading order. -/
def children : Pattern → List Pattern
  | .literal _ | .wildcard | .lineStart | .lineEnd => []
  | .sequence items => items
  | .alternative first second => [first, second]
  | .repetition _ body => [body]

mutual

/-- A tree and all trees inside it, each before its parts. -/
def nodes : Pattern → List Pattern
  | .sequence items => .sequence items :: nodesOf items
  | .alternative first second => .alternative first second :: (first.nodes ++ second.nodes)
  | .repetition quantifier body => .repetition quantifier body :: body.nodes
  | leaf => [leaf]

def nodesOf : List Pattern → List Pattern
  | [] => []
  | item :: rest => item.nodes ++ nodesOf rest

end

theorem nodes_sequence (items : List Pattern) :
    (sequence items).nodes = sequence items :: nodesOf items :=
  rfl

theorem nodes_alternative (first second : Pattern) :
    (alternative first second).nodes = alternative first second :: (first.nodes ++ second.nodes) :=
  rfl

theorem nodes_repetition (quantifier : Quantifier) (body : Pattern) :
    (repetition quantifier body).nodes = repetition quantifier body :: body.nodes :=
  rfl

theorem nodesOf_nil : nodesOf [] = [] :=
  rfl

theorem nodesOf_cons (item : Pattern) (rest : List Pattern) :
    nodesOf (item :: rest) = item.nodes ++ nodesOf rest :=
  rfl

def size (pattern : Pattern) : Nat :=
  pattern.nodes.length

def hasLineStart (pattern : Pattern) : Bool :=
  pattern.nodes.contains .lineStart

def hasLineEnd (pattern : Pattern) : Bool :=
  pattern.nodes.contains .lineEnd

end Pattern

end PatternMachine

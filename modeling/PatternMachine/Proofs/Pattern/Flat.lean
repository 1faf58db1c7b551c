import PatternMachine.Proofs.Pattern.Shape
import PatternMachine.Proofs.Program.Code

/-!
# Flat patterns

A pattern without its groups is a list of items, each an atom, a repetition of such a list or an
alternative of two: the items of every sequence stand in the place of the sequence. The code of a
pattern is that of its items one after another.
-/

namespace PatternMachine

namespace Pattern

mutual

/-- The items of a tree, at every level with those of inner sequences in their places. -/
def flat : Pattern → List Pattern
  | .sequence items => flatAll items
  | .alternative first second => [.alternative (.sequence first.flat) (.sequence second.flat)]
  | .repetition quantifier body => [.repetition quantifier (.sequence body.flat)]
  | atom => [atom]

def flatAll : List Pattern → List Pattern
  | [] => []
  | item :: rest => item.flat ++ flatAll rest

end

theorem flat_cons (item : Pattern) (rest : List Pattern) :
    (sequence (item :: rest)).flat = item.flat ++ (sequence rest).flat :=
  rfl

theorem width_append (front back : List Pattern) :
    (sequence (front ++ back)).width = (sequence front).width + (sequence back).width := by
  induction front with
  | nil => exact (Nat.zero_add _).symm
  | cons item rest ih => rw [List.cons_append, width_cons, ih, width_cons, Nat.add_assoc]

theorem code_append (start : Nat) (front back : List Pattern) :
    (sequence (front ++ back)).code start =
      (sequence front).code start ++ (sequence back).code (start + (sequence front).width) := by
  induction front generalizing start with
  | nil => rfl
  | cons item rest ih =>
      rw [List.cons_append, code_cons, ih, code_cons, width_cons, List.append_assoc,
        Nat.add_assoc]

theorem width_singleton (item : Pattern) : (sequence [item]).width = item.width :=
  Nat.add_zero _

theorem code_singleton (start : Nat) (item : Pattern) :
    (sequence [item]).code start = item.code start :=
  List.append_nil _

theorem width_repetition_congr (quantifier : Quantifier) {body body' : Pattern}
    (same : body.width = body'.width) :
    (repetition quantifier body).width = (repetition quantifier body').width := by
  cases quantifier <;> simp only [width, same]

theorem code_repetition_congr (quantifier : Quantifier) {body body' : Pattern}
    (width : body.width = body'.width) (same : ∀ start, body.code start = body'.code start)
    (start : Nat) :
    (repetition quantifier body).code start = (repetition quantifier body').code start := by
  cases quantifier <;> simp only [code, width, same]

@[simp]
theorem width_flat (pattern : Pattern) : (sequence pattern.flat).width = pattern.width := by
  induction pattern using byItems with
  | literal symbol => rfl
  | wildcard => rfl
  | lineStart => rfl
  | lineEnd => rfl
  | nil => rfl
  | cons item rest ihItem ihRest => rw [flat_cons, width_append, ihItem, ihRest, width_cons]
  | alternative first second ihFirst ihSecond =>
      rw [flat, width_singleton, width, ihFirst, ihSecond, width]
  | repetition quantifier body ih =>
      rw [flat, width_singleton]
      exact width_repetition_congr quantifier ih

/-- The items of a pattern have its code. -/
theorem code_flat (start : Nat) (pattern : Pattern) :
    (sequence pattern.flat).code start = pattern.code start := by
  induction pattern using byItems generalizing start with
  | literal symbol => rfl
  | wildcard => rfl
  | lineStart => rfl
  | lineEnd => rfl
  | nil => rfl
  | cons item rest ihItem ihRest =>
      rw [flat_cons, code_append, ihItem, ihRest, width_flat, code_cons]
  | alternative first second ihFirst ihSecond =>
      rw [flat, code_singleton, code, ihFirst, ihSecond, width_flat, width_flat, code]
  | repetition quantifier body ih =>
      rw [flat, code_singleton]
      exact code_repetition_congr quantifier body.width_flat ih start

theorem program_flat (pattern : Pattern) : (sequence pattern.flat).program = pattern.program := by
  rw [program, program, code_flat]

theorem width_pos_of_mem_singleton {item only : Pattern} (mem : item ∈ [only])
    (positive : 0 < only.width) : 0 < item.width := by
  obtain rfl := List.mem_singleton.mp mem
  exact positive

theorem width_pos_of_mem_flat {pattern item : Pattern} (bounded : pattern.Bounded)
    (mem : item ∈ pattern.flat) : 0 < item.width := by
  induction pattern using byItems with
  | literal symbol => exact width_pos_of_mem_singleton mem Nat.one_pos
  | wildcard => exact width_pos_of_mem_singleton mem Nat.one_pos
  | lineStart => exact width_pos_of_mem_singleton mem Nat.one_pos
  | lineEnd => exact width_pos_of_mem_singleton mem Nat.one_pos
  | nil => cases mem
  | cons one rest ihOne ihRest =>
      obtain ⟨oneBounded, restBounded⟩ := Bounded.cons_iff.mp bounded
      exact (List.mem_append.mp mem).elim (ihOne oneBounded) (ihRest restBounded)
  | alternative first second _ _ => exact width_pos_of_mem_singleton mem (Nat.succ_pos _)
  | repetition quantifier body _ =>
      apply width_pos_of_mem_singleton mem
      cases quantifier with
      | unspecified => exact absurd rfl (Bounded.repetition_iff.mp bounded).1
      | oneOrMore => exact Nat.succ_pos _
      | zeroOrMore => exact Nat.succ_pos _
      | zeroOrOne => exact Nat.succ_pos _

end Pattern

end PatternMachine

import PatternMachine.Pattern.Normal

/-!
# Induction over patterns

A sequence is built item by item, so that statements about patterns are proved without a second
statement about lists of patterns. A pattern is bounded when every repetition in it has bounds.
-/

namespace PatternMachine

namespace Pattern

/-- Induction over a pattern where a sequence is empty or has a first item and a rest. -/
@[elab_as_elim]
theorem byItems {motive : Pattern → Prop} (literal : ∀ symbol, motive (.literal symbol))
    (wildcard : motive .wildcard) (lineStart : motive .lineStart) (lineEnd : motive .lineEnd)
    (nil : motive (.sequence []))
    (cons : ∀ item rest, motive item → motive (.sequence rest) →
      motive (.sequence (item :: rest)))
    (alternative : ∀ first second, motive first → motive second →
      motive (.alternative first second))
    (repetition : ∀ quantifier body, motive body → motive (.repetition quantifier body))
    (pattern : Pattern) : motive pattern :=
  @Pattern.rec motive (fun items => motive (.sequence items)) literal wildcard lineStart lineEnd
    (fun _ items => items) alternative repetition nil cons pattern

/-- The pattern is a repetition without bounds. -/
def isBare : Pattern → Bool
  | .repetition .unspecified _ => true
  | _ => false

/-- Every repetition in the tree has bounds. -/
def Bounded (pattern : Pattern) : Prop :=
  ∀ node ∈ pattern.nodes, node.isBare = false

instance (pattern : Pattern) : Decidable pattern.Bounded :=
  inferInstanceAs (Decidable (∀ node ∈ pattern.nodes, node.isBare = false))

namespace Bounded

theorem cons_iff {item : Pattern} {rest : List Pattern} :
    (sequence (item :: rest)).Bounded ↔ item.Bounded ∧ (sequence rest).Bounded := by
  simp [Bounded, nodes_sequence, nodesOf_cons, isBare, or_imp, forall_and]

theorem alternative_iff {first second : Pattern} :
    (alternative first second).Bounded ↔ first.Bounded ∧ second.Bounded := by
  simp [Bounded, nodes_alternative, isBare, or_imp, forall_and]

theorem repetition_iff {quantifier : Quantifier} {body : Pattern} :
    (repetition quantifier body).Bounded ↔ quantifier ≠ .unspecified ∧ body.Bounded := by
  cases quantifier <;> simp [Bounded, nodes_repetition, isBare]

theorem ungrouped {pattern : Pattern} (bounded : pattern.Bounded) :
    pattern.ungrouped.Bounded := by
  fun_induction Pattern.ungrouped pattern with
  | case1 item ih => exact ih (cons_iff.mp bounded).1
  | case2 pattern => exact bounded

end Bounded

/-! ## Normal forms -/

/-- A star is that of its body, or that of the star which the body is but for groups. -/
theorem star_cases (body : Pattern) :
    (∃ inner, body.ungrouped = repetition .zeroOrMore inner ∧
        body.star = repetition .zeroOrMore inner) ∨
      body.star = repetition .zeroOrMore body := by
  unfold star
  split
  · rename_i inner same
    exact .inl ⟨inner, same, rfl⟩
  · exact .inr rfl

namespace Bounded

theorem star {body : Pattern} (bounded : body.Bounded) : body.star.Bounded := by
  rcases star_cases body with ⟨inner, same, collapsed⟩ | kept
  · rw [collapsed, ← same]
    exact bounded.ungrouped
  · rw [kept]
    exact repetition_iff.mpr ⟨by simp, bounded⟩

theorem normal {pattern : Pattern} (bounded : pattern.Bounded) : pattern.normal.Bounded := by
  induction pattern using byItems with
  | literal symbol => exact bounded
  | wildcard => exact bounded
  | lineStart => exact bounded
  | lineEnd => exact bounded
  | nil => exact bounded
  | cons item rest ihItem ihRest =>
      obtain ⟨itemBounded, restBounded⟩ := cons_iff.mp bounded
      exact cons_iff.mpr ⟨ihItem itemBounded, ihRest restBounded⟩
  | alternative first second ihFirst ihSecond =>
      obtain ⟨firstBounded, secondBounded⟩ := alternative_iff.mp bounded
      exact alternative_iff.mpr ⟨ihFirst firstBounded, ihSecond secondBounded⟩
  | repetition quantifier body ih =>
      obtain ⟨given, bodyBounded⟩ := repetition_iff.mp bounded
      cases quantifier with
      | zeroOrMore => exact (ih bodyBounded).star
      | unspecified => exact bounded
      | oneOrMore => exact repetition_iff.mpr ⟨given, ih bodyBounded⟩
      | zeroOrOne => exact repetition_iff.mpr ⟨given, ih bodyBounded⟩

end Bounded

end Pattern

end PatternMachine

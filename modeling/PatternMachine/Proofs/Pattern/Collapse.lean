import Mathlib.Logic.Relation
import PatternMachine.Proofs.Pattern.Shape

/-!
# Single collapses

The normal form is reached by dropping one outer star at a time. Every property that one such
collapse keeps is kept by the normal form.
-/

namespace PatternMachine

namespace Pattern

/-- One star around a star, anywhere in the pattern, is dropped. -/
inductive Collapses : Pattern → Pattern → Prop where
  | star {body inner : Pattern} (same : body.ungrouped = .repetition .zeroOrMore inner) :
      Collapses (.repetition .zeroOrMore body) (.repetition .zeroOrMore inner)
  | head {item item' : Pattern} {rest : List Pattern} (inner : Collapses item item') :
      Collapses (.sequence (item :: rest)) (.sequence (item' :: rest))
  | tail {item : Pattern} {rest rest' : List Pattern}
      (inner : Collapses (.sequence rest) (.sequence rest')) :
      Collapses (.sequence (item :: rest)) (.sequence (item :: rest'))
  | first {one one' other : Pattern} (inner : Collapses one one') :
      Collapses (.alternative one other) (.alternative one' other)
  | second {one other other' : Pattern} (inner : Collapses other other') :
      Collapses (.alternative one other) (.alternative one other')
  | body {quantifier : Quantifier} {body body' : Pattern} (inner : Collapses body body') :
      Collapses (.repetition quantifier body) (.repetition quantifier body')

namespace Collapses

theorem bounded {pattern pattern' : Pattern} (collapses : Collapses pattern pattern')
    (bounded : pattern.Bounded) : pattern'.Bounded := by
  induction collapses with
  | star same => exact same ▸ (Bounded.repetition_iff.mp bounded).2.ungrouped
  | head _ ih =>
      obtain ⟨item, rest⟩ := Bounded.cons_iff.mp bounded
      exact Bounded.cons_iff.mpr ⟨ih item, rest⟩
  | tail _ ih =>
      obtain ⟨item, rest⟩ := Bounded.cons_iff.mp bounded
      exact Bounded.cons_iff.mpr ⟨item, ih rest⟩
  | first _ ih =>
      obtain ⟨one, other⟩ := Bounded.alternative_iff.mp bounded
      exact Bounded.alternative_iff.mpr ⟨ih one, other⟩
  | second _ ih =>
      obtain ⟨one, other⟩ := Bounded.alternative_iff.mp bounded
      exact Bounded.alternative_iff.mpr ⟨one, ih other⟩
  | body _ ih =>
      obtain ⟨given, body⟩ := Bounded.repetition_iff.mp bounded
      exact Bounded.repetition_iff.mpr ⟨given, ih body⟩

theorem cons (item : Pattern) {rest : List Pattern} {pattern : Pattern}
    (collapses : Relation.ReflTransGen Collapses (.sequence rest) pattern) :
    ∃ rest', pattern = .sequence rest' ∧
      Relation.ReflTransGen Collapses (.sequence (item :: rest)) (.sequence (item :: rest')) := by
  induction collapses with
  | refl => exact ⟨rest, rfl, .refl⟩
  | @tail _ pattern _ last ih =>
      obtain ⟨rest', rfl, behind⟩ := ih
      have sequence : ∃ rest'', pattern = Pattern.sequence rest'' := by
        cases last with
        | head _ => exact ⟨_, rfl⟩
        | tail _ => exact ⟨_, rfl⟩
      obtain ⟨rest'', rfl⟩ := sequence
      exact ⟨rest'', rfl, behind.tail (.tail last)⟩

end Collapses

/-- A pattern comes to its normal form by single collapses. -/
theorem collapses_normal (pattern : Pattern) :
    Relation.ReflTransGen Collapses pattern pattern.normal := by
  induction pattern using byItems with
  | literal symbol => exact .refl
  | wildcard => exact .refl
  | lineStart => exact .refl
  | lineEnd => exact .refl
  | nil => exact .refl
  | cons item rest ihItem ihRest =>
      have front := ihItem.lift (fun item => sequence (item :: rest))
        fun _ _ inner => Collapses.head inner
      obtain ⟨rest', same, back⟩ := Collapses.cons item.normal ihRest
      cases same
      exact front.trans back
  | alternative first second ihFirst ihSecond =>
      have front := ihFirst.lift (fun first => alternative first second)
        fun _ _ inner => Collapses.first inner
      have back := ihSecond.lift (alternative first.normal) fun _ _ inner => Collapses.second inner
      exact front.trans back
  | repetition quantifier body ih =>
      have inside := ih.lift (repetition quantifier) fun _ _ inner => Collapses.body inner
      cases quantifier with
      | unspecified => exact .refl
      | oneOrMore => exact inside
      | zeroOrOne => exact inside
      | zeroOrMore =>
          rcases star_cases body.normal with ⟨inner, same, collapsed⟩ | kept
          · rw [normal, collapsed]
            exact inside.tail (.star same)
          · rw [normal, kept]
            exact inside

end Pattern

end PatternMachine

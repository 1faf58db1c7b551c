import PatternMachine.Pattern.Ending
import PatternMachine.Proofs.Pattern.Shape

/-!
# Scanning for content after an end anchor

The scan of a sequence goes on behind its first item with what that item leaves behind. A pattern
that is entered behind an end anchor and has no content leaves the anchor behind it.
-/

namespace PatternMachine

namespace Pattern

variable {pattern : Pattern}

theorem contentAfter_cons (endSeen : Bool) (item : Pattern) (rest : List Pattern) :
    (scanEnd endSeen (sequence (item :: rest))).contentAfter =
      ((scanEnd endSeen item).contentAfter ||
        (scanEnd (scanEnd endSeen item).endBehind (sequence rest)).contentAfter) :=
  rfl

theorem endBehind_cons (endSeen : Bool) (item : Pattern) (rest : List Pattern) :
    (scanEnd endSeen (sequence (item :: rest))).endBehind =
      (scanEnd (scanEnd endSeen item).endBehind (sequence rest)).endBehind :=
  rfl

/-- A pattern without content behind an end anchor has this end anchor behind it too. -/
theorem endBehind_of_noContent (noContent : (scanEnd true pattern).contentAfter = false) :
    (scanEnd true pattern).endBehind = true := by
  induction pattern using byItems with
  | literal symbol => cases noContent
  | wildcard => cases noContent
  | lineStart => rfl
  | lineEnd => rfl
  | nil => rfl
  | cons item rest ihItem ihRest =>
      rw [contentAfter_cons] at noContent
      obtain ⟨front, back⟩ := Bool.or_eq_false_iff.mp noContent
      rw [ihItem front] at back
      rw [endBehind_cons, ihItem front]
      exact ihRest back
  | alternative first second ihFirst ihSecond =>
      obtain ⟨front, -⟩ := Bool.or_eq_false_iff.mp noContent
      exact Bool.or_eq_true_iff.mpr (.inl (ihFirst front))
  | repetition quantifier body ih =>
      obtain ⟨once, -⟩ := Bool.or_eq_false_iff.mp noContent
      cases quantifier with
      | oneOrMore => exact ih once
      | zeroOrMore | zeroOrOne | unspecified => rfl

end Pattern

end PatternMachine

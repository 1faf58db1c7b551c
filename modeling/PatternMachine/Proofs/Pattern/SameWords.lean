import PatternMachine.Proofs.Pattern.Words

/-!
# Patterns with the same words

What the scan for content after an end anchor finds depends on the words of a pattern only. A star
around a star has the words of the inner one, so a pattern and its normal form are scanned alike.
-/

namespace PatternMachine

namespace Pattern

open scoped Computability

variable {pattern other : Pattern}

theorem scanEnd_eq_of_words (same : pattern.words = other.words) (endSeen : Bool) :
    scanEnd endSeen pattern = scanEnd endSeen other := by
  have sums := sumsUp_scanEnd pattern
  have others := sumsUp_scanEnd other
  have content : (scanEnd endSeen pattern).contentAfter =
      (scanEnd endSeen other).contentAfter := by
    rw [Bool.eq_iff_iff, sums.content, others.content, same]
  have behind : (scanEnd endSeen pattern).endBehind = (scanEnd endSeen other).endBehind := by
    rw [Bool.eq_iff_iff, sums.behind, others.behind, same]
  calc
    scanEnd endSeen pattern =
        ⟨(scanEnd endSeen pattern).contentAfter, (scanEnd endSeen pattern).endBehind⟩ := rfl
    _ = ⟨(scanEnd endSeen other).contentAfter, (scanEnd endSeen other).endBehind⟩ := by
        rw [content, behind]
    _ = scanEnd endSeen other := rfl

theorem words_cons (item : Pattern) (rest : List Pattern) :
    (sequence (item :: rest)).words = item.words * (sequence rest).words :=
  rfl

/-! ## Normal forms -/

theorem words_ungrouped (pattern : Pattern) : pattern.ungrouped.words = pattern.words := by
  fun_induction ungrouped pattern with
  | case1 item ih => exact ih.trans (mul_one item.words).symm
  | case2 pattern => rfl

theorem words_star (body : Pattern) : body.star.words = body.words∗ := by
  rcases star_cases body with ⟨inner, same, collapsed⟩ | kept
  · rw [collapsed, ← words_ungrouped body, same]
    exact (kstar_idem inner.words).symm
  · rw [kept, words]

/-- The normal form has the words of the pattern. -/
theorem words_normal (pattern : Pattern) : pattern.normal.words = pattern.words := by
  induction pattern using byItems with
  | literal symbol => rfl
  | wildcard => rfl
  | lineStart => rfl
  | lineEnd => rfl
  | nil => rfl
  | cons item rest ihItem ihRest =>
      rw [words_cons, ← ihItem, ← ihRest]
      rfl
  | alternative first second ihFirst ihSecond => rw [normal, words, words, ihFirst, ihSecond]
  | repetition quantifier body ih =>
      cases quantifier with
      | zeroOrMore => rw [normal, words_star, ih, words]
      | oneOrMore => rw [normal, words, words, ih]
      | zeroOrOne => rw [normal, words, words, ih]
      | unspecified => rfl

theorem scanEnd_normal (endSeen : Bool) (pattern : Pattern) :
    scanEnd endSeen pattern.normal = scanEnd endSeen pattern :=
  scanEnd_eq_of_words pattern.words_normal endSeen

end Pattern

end PatternMachine

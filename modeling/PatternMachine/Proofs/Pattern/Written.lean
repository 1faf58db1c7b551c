import PatternMachine.Pattern.Written
import PatternMachine.Proofs.Pattern.Atom
import PatternMachine.Proofs.Pattern.Canonical

/-!
# Patterns with a text form

A tree has a text form when each of its literals is printable or one character, and so has its
normal form. Trees that were read have only literals of one character.
-/

namespace PatternMachine

namespace Symbol

theorem exists_named_iff (shown : String → String) {symbol : Symbol} :
    (∃ name, named shown symbol = .ok name) ↔
      Text.allPrintable symbol = true ∨ symbol.length = 1 := by
  rw [← String.length_toList, List.length_eq_one_iff]
  constructor
  · rintro ⟨name, ok⟩
    unfold named at ok
    split at ok
    · rename_i printable
      exact .inl printable
    · unfold code at ok
      split at ok
      · rename_i c single
        exact .inr ⟨c, single⟩
      · cases ok
  · rintro (printable | ⟨c, single⟩)
    · exact ⟨_, named_of_printable printable⟩
    · rw [← String.ofList_toList (s := symbol), single]
      exact named_singleton shown c

end Symbol

namespace Pattern

variable {pattern item first second body : Pattern} {rest : List Pattern}
  {quantifier : Quantifier}

theorem isAtom_literal (symbol : Symbol) : (literal symbol).isAtom = true :=
  rfl

/-- Every literal in the tree is printable or one character. -/
def Writable (pattern : Pattern) : Prop :=
  ∀ symbol, .literal symbol ∈ pattern.nodes →
    Text.allPrintable symbol = true ∨ symbol.length = 1

namespace Writable

theorem literal_iff {symbol : Symbol} :
    (literal symbol).Writable ↔ Text.allPrintable symbol = true ∨ symbol.length = 1 := by
  simp [Writable, nodes]

theorem cons_iff :
    (sequence (item :: rest)).Writable ↔ item.Writable ∧ (sequence rest).Writable := by
  simp only [Writable, mem_nodes_cons_iff (isAtom_literal _), or_imp, forall_and]

theorem alternative_iff :
    (alternative first second).Writable ↔ first.Writable ∧ second.Writable := by
  simp only [Writable, mem_nodes_alternative_iff (isAtom_literal _), or_imp, forall_and]

theorem repetition_iff : (repetition quantifier body).Writable ↔ body.Writable := by
  simp only [Writable, mem_nodes_repetition_iff (isAtom_literal _)]

theorem sequence_iff {items : List Pattern} :
    (sequence items).Writable ↔ ∀ item ∈ items, item.Writable := by
  induction items with
  | nil => simp [Writable, nodes_sequence, nodesOf_nil]
  | cons item rest ih => rw [cons_iff, ih, List.forall_mem_cons]

theorem normal_iff : pattern.normal.Writable ↔ pattern.Writable := by
  simp only [Writable, mem_nodes_normal_iff (isAtom_literal _)]

end Writable

/-! ## Text forms -/

theorem exists_written_cons_iff :
    (∃ text, (sequence (item :: rest)).written = .ok text) ↔
      (∃ text, item.written = .ok text) ∧ ∃ text, (sequence rest).written = .ok text := by
  simp only [written_sequence, writtenAll_cons]
  cases item.written with
  | error problem => simp
  | ok text => cases writtenAll rest <;> simp

theorem exists_written_alternative_iff :
    (∃ text, (alternative first second).written = .ok text) ↔
      (∃ text, first.written = .ok text) ∧ ∃ text, second.written = .ok text := by
  simp only [written_alternative]
  cases first.written with
  | error problem => simp
  | ok text => cases second.written <;> simp

theorem exists_written_repetition_iff :
    (∃ text, (repetition quantifier body).written = .ok text) ↔
      ∃ text, body.written = .ok text := by
  simp only [written_repetition]
  cases body.written <;> simp

/-- The trees with a text form are those whose literals all have a name. -/
theorem exists_written_iff : (∃ text, pattern.written = .ok text) ↔ pattern.Writable := by
  induction pattern using byItems with
  | literal symbol =>
      rw [Writable.literal_iff, ← Symbol.exists_named_iff Text.quote, written_literal]
      cases symbol.named Text.quote <;> simp
  | wildcard => simp [written, Writable, nodes]
  | lineStart => simp [written, Writable, nodes]
  | lineEnd => simp [written, Writable, nodes]
  | nil => simp [written, writtenAll, Writable, nodes_sequence, nodesOf_nil]
  | cons item rest ihItem ihRest =>
      rw [exists_written_cons_iff, Writable.cons_iff, ihItem, ihRest]
  | alternative first second ihFirst ihSecond =>
      rw [exists_written_alternative_iff, Writable.alternative_iff, ihFirst, ihSecond]
  | repetition quantifier body ih =>
      rw [exists_written_repetition_iff, Writable.repetition_iff, ih]

/-! ## Canonical patterns -/

mutual

theorem IsItem.writable {pattern : Pattern} : pattern.IsItem → pattern.Writable
  | .literal c => Writable.literal_iff.mpr (.inr (by simp))
  | .wildcard => by simp [Writable, nodes]
  | .lineStart => by simp [Writable, nodes]
  | .lineEnd => by simp [Writable, nodes]
  | .repetition _ item => Writable.repetition_iff.mpr item.writable
  | .group canonical => canonical.writable

theorem Canonical.writable {pattern : Pattern} : pattern.Canonical → pattern.Writable
  | .branch _ all => Writable.sequence_iff.mpr fun item mem => (all item mem).writable
  | .alternative _ all others =>
      Writable.alternative_iff.mpr
        ⟨Writable.sequence_iff.mpr fun item mem => (all item mem).writable, others.writable⟩

end

end Pattern

end PatternMachine

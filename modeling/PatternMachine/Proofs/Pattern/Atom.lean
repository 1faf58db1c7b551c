import PatternMachine.Proofs.Pattern.Shape

/-!
# Atoms

The literals, wildcards and anchors in a tree. Its normal form has the same ones, since only stars
and groups are dropped.
-/

namespace PatternMachine

namespace Pattern

variable {atom item first second body pattern : Pattern} {rest : List Pattern}
  {quantifier : Quantifier}

def isAtom : Pattern → Bool
  | .literal _ | .wildcard | .lineStart | .lineEnd => true
  | .sequence _ | .alternative _ _ | .repetition _ _ => false

section Atom

variable (atomic : atom.isAtom = true)
include atomic

theorem mem_nodes_cons_iff :
    atom ∈ (sequence (item :: rest)).nodes ↔ atom ∈ item.nodes ∨ atom ∈ (sequence rest).nodes := by
  cases atom <;> simp_all [nodes_sequence, nodesOf_cons, isAtom]

theorem mem_nodes_alternative_iff :
    atom ∈ (alternative first second).nodes ↔ atom ∈ first.nodes ∨ atom ∈ second.nodes := by
  cases atom <;> simp_all [nodes_alternative, isAtom]

theorem mem_nodes_repetition_iff :
    atom ∈ (repetition quantifier body).nodes ↔ atom ∈ body.nodes := by
  cases atom <;> simp_all [nodes_repetition, isAtom]

theorem not_mem_nodes_nil : atom ∉ (sequence []).nodes := by
  cases atom <;> simp_all [nodes_sequence, nodesOf_nil, isAtom]

theorem mem_nodes_ungrouped_iff : atom ∈ pattern.ungrouped.nodes ↔ atom ∈ pattern.nodes := by
  fun_induction ungrouped pattern with
  | case1 item ih =>
      have nothing : atom ∉ (sequence []).nodes := not_mem_nodes_nil atomic
      rw [ih, mem_nodes_cons_iff atomic]
      simp [nothing]
  | case2 pattern => rfl

theorem mem_nodes_star_iff : atom ∈ body.star.nodes ↔ atom ∈ body.nodes := by
  rcases star_cases body with ⟨inner, same, collapsed⟩ | kept
  · rw [collapsed, ← same, mem_nodes_ungrouped_iff atomic]
  · rw [kept, mem_nodes_repetition_iff atomic]

theorem mem_nodes_normal_iff : atom ∈ pattern.normal.nodes ↔ atom ∈ pattern.nodes := by
  induction pattern using byItems with
  | literal symbol => rfl
  | wildcard => rfl
  | lineStart => rfl
  | lineEnd => rfl
  | nil => rfl
  | cons item rest ihItem ihRest =>
      have normal : (sequence (item :: rest)).normal =
          .sequence (item.normal :: normalAll rest) := rfl
      rw [normal, mem_nodes_cons_iff atomic, mem_nodes_cons_iff atomic, ihItem, ← ihRest]
      rfl
  | alternative first second ihFirst ihSecond =>
      rw [normal, mem_nodes_alternative_iff atomic, mem_nodes_alternative_iff atomic, ihFirst,
        ihSecond]
  | repetition quantifier body ih =>
      rw [mem_nodes_repetition_iff atomic, ← ih]
      cases quantifier with
      | oneOrMore => exact mem_nodes_repetition_iff atomic
      | zeroOrMore => exact mem_nodes_star_iff atomic
      | zeroOrOne => exact mem_nodes_repetition_iff atomic
      | unspecified => exact (mem_nodes_repetition_iff atomic).trans ih.symm

end Atom

theorem hasLineStart_eq_false_iff : pattern.hasLineStart = false ↔ .lineStart ∉ pattern.nodes := by
  simp [hasLineStart]

end Pattern

end PatternMachine

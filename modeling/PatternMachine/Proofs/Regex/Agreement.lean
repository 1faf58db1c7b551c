import PatternMachine.Proofs.Machine.Agreement
import PatternMachine.Proofs.Pattern.Atom
import PatternMachine.Proofs.Regex.Compiled

/-!
# The strategies on compiled patterns

The code of a pattern has a start anchor only if the pattern has one. So both strategies find the
same lines for a compiled pattern without start anchors.
-/

namespace PatternMachine

theorem Pattern.lineStart_mem_of_head_mem {pattern : Pattern} {start : Nat}
    (mem : Instruction.head ∈ pattern.code start) : .lineStart ∈ pattern.nodes := by
  induction pattern using byItems generalizing start with
  | literal symbol | wildcard | lineEnd => simp [code] at mem
  | lineStart => exact List.mem_cons_self
  | nil => simp [code, codeAll] at mem
  | cons item rest ihItem ihRest =>
      rw [code_cons, List.mem_append] at mem
      exact (mem_nodes_cons_iff rfl).mpr (mem.imp ihItem ihRest)
  | alternative first second ihFirst ihSecond =>
      have parts : Instruction.head ∈ first.code (start + 1) ∨
          Instruction.head ∈ second.code (start + first.width + 2) := by
        simpa [code] using mem
      exact (mem_nodes_alternative_iff rfl).mpr (parts.imp ihFirst ihSecond)
  | repetition quantifier body ih =>
      have inside : ∃ first, Instruction.head ∈ body.code first := by
        cases quantifier with
        | oneOrMore => exact ⟨start, by simpa [code] using mem⟩
        | zeroOrMore => exact ⟨start + 1, by simpa [code] using mem⟩
        | zeroOrOne => exact ⟨start + 1, by simpa [code] using mem⟩
        | unspecified => simp [code] at mem
      obtain ⟨first, head⟩ := inside
      exact (mem_nodes_repetition_iff rfl).mpr (ih head)

namespace Regex

variable {config : Config} {source : String} {regex : Regex}

theorem headless_of_compile (compiled : (compile config source).value = .ok regex)
    (unanchored : regex.pattern.hasLineStart = false) : Instruction.head ∉ regex.program.code := by
  obtain ⟨-, program, -⟩ := program_of_compile compiled
  rw [program]
  intro mem
  have inside : Instruction.head ∈ regex.pattern.normal.code 0 := by
    simpa [Pattern.program] using mem
  have anchor := Pattern.lineStart_mem_of_head_mem inside
  rw [Pattern.mem_nodes_normal_iff rfl] at anchor
  exact Pattern.hasLineStart_eq_false_iff.mp unanchored anchor

end Regex

namespace Machine

/--
Where both strategies return on a line, a line that breadth-first search finds is found by
depth-first search. The answers are equal if the program has no start anchor, in particular if it
is compiled from a pattern without one.
-/
theorem matchLine_strategies (machine : Machine) (line : Array Symbol) (breadth depth : Bool)
    (breadthOk : (machine.matchLine .breadthFirst line).value = .ok breadth)
    (depthOk : (machine.matchLine .depthFirst line).value = .ok depth) :
    (breadth = true → depth = true) ∧
    (Instruction.head ∉ machine.program.code → breadth = depth) ∧
    ∀ config source regex, (Regex.compile config source).value = .ok regex →
      machine.program = regex.program → regex.pattern.hasLineStart = false → breadth = depth := by
  refine ⟨matchLine_depth_of_breadth breadthOk depthOk,
    matchLine_eq_of_headless breadthOk depthOk, ?_⟩
  intro config source regex compiled same unanchored
  refine matchLine_eq_of_headless breadthOk depthOk ?_
  rw [same]
  exact Regex.headless_of_compile compiled unanchored

/-- A line on which the answers differ for a start anchor, and one on which they cannot. -/
theorem matchLine_strategies_starThenLiteral :
    ((anchoredFirst.matchLine .breadthFirst #["b", "a"]).value = .ok false ∧
      (anchoredFirst.matchLine .depthFirst #["b", "a"]).value = .ok true) ∧
    ∃ regex, (Regex.compile {} "a*b").value = .ok regex ∧ regex.pattern.hasLineStart = false ∧
      ∃ breadth depth,
        (regex.machine.matchLine .breadthFirst #["c", "a", "b"]).value = .ok breadth ∧
        (regex.machine.matchLine .depthFirst #["c", "a", "b"]).value = .ok depth ∧
        breadth = depth ∧ breadth = true := by
  let starThenLiteral : Pattern := .sequence [.repetition .zeroOrMore (.literal "a"), .literal "b"]
  let regex : Regex := ⟨"a*b", starThenLiteral, starThenLiteral.normal.program, {}⟩
  have compiled : (Regex.compile {} "a*b").value = .ok regex := by rfl
  have unanchored : regex.pattern.hasLineStart = false := by decide
  have breadth : (regex.machine.matchLine .breadthFirst #["c", "a", "b"]).value = .ok true := by
    decide +kernel
  have depth : (regex.machine.matchLine .depthFirst #["c", "a", "b"]).value = .ok true := by
    decide +kernel
  obtain ⟨-, -, equal⟩ := matchLine_strategies _ _ _ _ breadth depth
  exact ⟨⟨by decide +kernel, by decide +kernel⟩, regex, compiled, unanchored, true, true, breadth,
    depth, equal {} "a*b" regex compiled rfl unanchored, rfl⟩

end Machine

end PatternMachine

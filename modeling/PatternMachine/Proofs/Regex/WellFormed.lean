import PatternMachine.Proofs.Pattern.Canonical
import PatternMachine.Proofs.Program.Overflow
import PatternMachine.Proofs.Program.WellFormed
import PatternMachine.Regex.Basic

/-!
# Compiled programs are well formed

A pattern is not read, its program passes the limit on addresses, or it is compiled to a
well-formed program. The same holds of building the program of a bounded tree.
-/

namespace PatternMachine

namespace Pattern

variable {pattern : Pattern}

theorem build_cases (bounded : pattern.Bounded) (config : Config) :
    (pattern.build config).value = .error .addressOverflow ∨
      ∃ program, (pattern.build config).value = .ok program ∧
        program.WellFormed pattern.normal := by
  rw [value_build bounded]
  by_cases fits : pattern.normal.program.size ≤ config.maxAddress
  · exact .inr ⟨_, if_pos fits, Program.wellFormed_program bounded.normal⟩
  · exact .inl (if_neg fits)

end Pattern

namespace Regex

/--
A text that is read is compiled to a well-formed program or passes the limit on addresses, and no
other error of construction occurs. This is so of every bounded tree too, under whatever
configuration it is built.
-/
theorem compile_wellFormed :
    (∀ config source,
      (∃ error, (compile config source).value = .error (.reading error)) ∨
      (compile config source).value = .error (.building .addressOverflow) ∨
      ∃ regex, (compile config source).value = .ok regex ∧
        regex.program.WellFormed regex.pattern.normal) ∧
    ∀ (config : Config) (pattern : Pattern), pattern.Bounded →
      (pattern.build config).value = .error .addressOverflow ∨
        ∃ program, (pattern.build config).value = .ok program ∧
          program.WellFormed pattern.normal := by
  refine ⟨fun config source => ?_, fun config pattern bounded =>
    Pattern.build_cases bounded config⟩
  unfold compile
  cases read : Pattern.read source with
  | error error => exact .inl ⟨error, rfl⟩
  | ok pattern =>
      right
      rcases Pattern.build_cases (Pattern.canonical_of_read read).bounded config with
        full | ⟨program, built, wellFormed⟩
      · exact .inl (by simp only [full])
      · exact .inr ⟨⟨source, pattern, program, config⟩, by simp only [built], wellFormed⟩

def nestedBlocks : Pattern :=
  .repetition .zeroOrMore
    (.alternative (.repetition .oneOrMore (.repetition .zeroOrOne (.literal "a"))) (.sequence []))

theorem compile_wellFormed_nestedBlocks :
    nestedBlocks.Bounded ∧
      (∃ program, (nestedBlocks.build {}).value = .ok program ∧
        program.WellFormed nestedBlocks.normal) ∧
      (nestedBlocks.build { maxAddress := 6 }).value = .error .addressOverflow := by
  have bounded : nestedBlocks.Bounded := by decide
  have built : (nestedBlocks.build {}).value = .ok nestedBlocks.normal.program := by rfl
  have full : (nestedBlocks.build { maxAddress := 6 }).value = .error .addressOverflow := by rfl
  refine ⟨bounded, ?_, full⟩
  rcases compile_wellFormed.2 {} nestedBlocks bounded with overflow | wellFormed
  · cases built.symm.trans overflow
  · exact wellFormed

end Regex

end PatternMachine

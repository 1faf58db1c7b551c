import PatternMachine.Proofs.Machine.Safety
import PatternMachine.Proofs.Pattern.Canonical
import PatternMachine.Proofs.Program.Fits
import PatternMachine.Proofs.Program.Region
import PatternMachine.Regex.Basic

/-!
# Compiled patterns do not go wrong

What was read is canonical, what was built from it is closed and fits the limit on addresses, and
both are kept together with the configuration. So a compiled pattern runs on every text within
the limit on offsets, and only the limit on nesting can stop it.
-/

namespace PatternMachine

namespace Regex

variable {config : Config} {source : String} {regex : Regex}

theorem compile_eq_ok (compiled : (compile config source).value = .ok regex) :
    Pattern.read source = .ok regex.pattern ∧
      (regex.pattern.build config).value = .ok regex.program ∧ regex.config = config := by
  unfold compile at compiled
  split at compiled
  · cases compiled
  · rename_i pattern read
    simp only at compiled
    split at compiled
    · cases compiled
    · rename_i program built
      cases compiled
      exact ⟨read, built, rfl⟩

/-- The program of a compiled pattern is that of the normal form of a bounded tree, and it fits. -/
theorem program_of_compile (compiled : (compile config source).value = .ok regex) :
    regex.pattern.Bounded ∧ regex.program = regex.pattern.normal.program ∧
      regex.program.size ≤ config.maxAddress := by
  obtain ⟨read, built, -⟩ := compile_eq_ok compiled
  have bounded := (Pattern.canonical_of_read read).bounded
  have fits := Pattern.size_program_le_of_build built
  have program := Pattern.build_eq_ok bounded fits built
  exact ⟨bounded, program, program ▸ fits⟩

theorem roomy_of_compile (compiled : (compile config source).value = .ok regex)
    {text : Array Symbol} (offsets : text.size ≤ config.maxOffset) :
    regex.machine.Roomy text := by
  obtain ⟨-, -, same⟩ := compile_eq_ok compiled
  obtain ⟨-, -, fits⟩ := program_of_compile compiled
  subst same
  exact ⟨fits, offsets⟩

theorem carries_of_compile (compiled : (compile config source).value = .ok regex) :
    regex.machine.program.Carries regex.pattern.normal regex.pattern.normal.width := by
  obtain ⟨bounded, program, -⟩ := program_of_compile compiled
  rw [machine, program]
  exact Program.carries_program bounded.normal

/--
A compiled pattern never goes wrong on a text within the limit on offsets. All threads that a run
follows or saves are safe, breadth-first evaluation and search always return, and depth-first
evaluation and search can only meet the limit on nesting, which then is too low for the text.
-/
theorem safe_of_compile (compiled : (compile config source).value = .ok regex)
    {text : Array Symbol} (offsets : text.size ≤ config.maxOffset) :
    (∀ thread, regex.machine.Reaches text thread → regex.machine.SafeAt text thread) ∧
    (∀ frontier, regex.machine.ComesTo text frontier →
      ∀ thread ∈ frontier.threads, regex.machine.SafeAt text thread) ∧
    (∃ verdict, regex.machine.run .breadthFirst text = .ok verdict) ∧
    (∀ fault, regex.machine.run .depthFirst text = .error fault →
      fault.reason = .depthLimit ∧ config.maxDepth < (text.size + 1) * regex.program.splits) ∧
    (∃ answer, (regex.machine.matchLine .breadthFirst text).value = .ok answer) ∧
    ∀ fault, (regex.machine.matchLine .depthFirst text).value = .error fault →
      fault.reason = .depthLimit ∧ config.maxDepth < (text.size + 1) * regex.program.splits := by
  have roomy := roomy_of_compile compiled offsets
  have carries := carries_of_compile compiled
  have closed := carries.closed
  have acyclic := carries.noIdleCycle
  obtain ⟨-, -, same⟩ := compile_eq_ok compiled
  subst same
  refine ⟨fun thread reaches => .of_reaches roomy closed reaches,
    fun frontier comes thread mem => ?_, Machine.runBreadth_eq_ok roomy closed acyclic,
    fun fault error => Machine.runDepth_eq_error roomy closed acyclic error,
    Machine.matchLine_breadthFirst_eq_ok roomy closed acyclic,
    fun fault error => Machine.matchLine_depthFirst_eq_error roomy closed acyclic error⟩
  exact .of_reaches roomy closed (Machine.reaches_of_comesTo comes thread mem)

/-- Limits that `a*` and a text of one symbol just meet, but for the nesting. -/
def tight : Config :=
  { maxAddress := 4, maxOffset := 1, maxDepth := 1 }

theorem safe_of_compile_tight :
    ∃ regex, (compile tight "a*").value = .ok regex ∧ (#["a"] : Array Symbol).size ≤ 1 ∧
      regex.program.size = 4 ∧
      (∀ thread, regex.machine.Reaches #["a"] thread → regex.machine.SafeAt #["a"] thread) ∧
      regex.machine.run .breadthFirst #["a"] = .ok ⟨true, false⟩ ∧
      regex.machine.run .depthFirst #["a"] = .error ⟨.depthLimit, 0⟩ ∧
      1 < (1 + 1) * regex.program.splits := by
  let star : Pattern := .sequence [.repetition .zeroOrMore (.literal "a")]
  let regex : Regex := ⟨"a*", star, star.normal.program, tight⟩
  have compiled : (compile tight "a*").value = .ok regex := by rfl
  have breadth : regex.machine.run .breadthFirst #["a"] = .ok ⟨true, false⟩ := by decide +kernel
  have depth : regex.machine.run .depthFirst #["a"] = .error ⟨.depthLimit, 0⟩ := by
    decide +kernel
  have offsets : (#["a"] : Array Symbol).size ≤ 1 := by decide
  obtain ⟨safe, -, -, deep, -⟩ := safe_of_compile compiled offsets
  exact ⟨regex, compiled, offsets, by rfl, safe, breadth, depth, (deep _ depth).2⟩

end Regex

end PatternMachine

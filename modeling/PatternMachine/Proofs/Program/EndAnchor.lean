import PatternMachine.Proofs.Pattern.Assertion
import PatternMachine.Proofs.Program.Correctness

/-!
# The end anchor in built programs

A program ends a match at an end anchor and never looks at what follows. A depth-first run of a
built program matches wherever the pattern does in the ordinary reading, and the verdicts are the
same for patterns without start anchors and without content after an end anchor.
-/

namespace PatternMachine

namespace Pattern

variable {config : Config} {pattern : Pattern} {program : Program} {text : Array Symbol}

/-- A depth-first run of a built program sums up the outcomes of the pattern. -/
theorem exists_runDepth_eq_ok (bounded : pattern.Bounded)
    (fits : pattern.normal.program.size ≤ config.maxAddress)
    (built : (pattern.build config).value = .ok program) (offsets : text.size ≤ config.maxOffset)
    (shallow : (text.size + 1) * program.splits ≤ config.maxDepth) :
    ∃ verdict, (Machine.mk program config).run .depthFirst text = .ok verdict ∧
      (verdict.matched = true ↔ ∃ outcome, pattern.means text 0 false outcome) ∧
      (verdict.requiresHead = true ↔ (∃ outcome, pattern.means text 0 false outcome) ∧
        ∀ outcome, pattern.means text 0 false outcome → outcome.headUsed = true) := by
  obtain rfl := build_eq_ok bounded fits built
  have roomy : (Machine.mk pattern.normal.program config).Roomy text := ⟨fits, offsets⟩
  have carries := Program.carries_program bounded.normal
  obtain ⟨verdict, ok⟩ := Machine.run_eq_ok roomy carries.closed carries.noIdleCycle shallow
    .depthFirst
  obtain ⟨leaves, explored, merged⟩ := Machine.runDepth_eq_ok ok
  refine ⟨verdict, ok, ?_⟩
  rw [← means_normal text pattern, ← Machine.exists_accepts_iff_means carries roomy,
    ← Machine.not_accepts_iff_means carries roomy]
  exact explored.verdict_iff merged

/--
An end anchor that ends the match agrees with one that only tests for the end of the text. Where
the ordinary verdict of a pattern is a match, the depth-first run of its program matches, and for
a pattern without start anchors and without content after an end anchor the run returns just the
ordinary verdict. The program is there if it fits.
-/
theorem build_ordinary (bounded : pattern.Bounded)
    (fits : pattern.normal.program.size ≤ config.maxAddress) :
    (∃ program, (pattern.build config).value = .ok program) ∧
    ∀ program, (pattern.build config).value = .ok program →
      ∀ text : Array Symbol, text.size ≤ config.maxOffset →
        (text.size + 1) * program.splits ≤ config.maxDepth →
        ∃ verdict, (Machine.mk program config).run .depthFirst text = .ok verdict ∧
          ((pattern.ordinaryVerdict text).matched = true → verdict.matched = true) ∧
          (pattern.hasLineStart = false → pattern.hasContentAfterEnd = false →
            verdict = pattern.ordinaryVerdict text) := by
  refine ⟨⟨_, build_of_fits bounded fits⟩, fun program built text offsets shallow => ?_⟩
  obtain ⟨verdict, ok, matched, requiresHead⟩ :=
    exists_runDepth_eq_ok bounded fits built offsets shallow
  refine ⟨verdict, ok, fun ordinary => ?_, fun headless noContent => ?_⟩
  · exact matched.mpr (exists_outcome_of_leads ((matched_ordinaryVerdict text pattern).mp ordinary))
  · exact eq_ordinaryVerdict bounded (hasLineStart_eq_false_iff.mp headless) noContent matched
      requiresHead

def endsInLoops : Pattern :=
  .sequence
    [.repetition .zeroOrMore (.literal "a"),
      .alternative (.literal "b") .lineEnd,
      .repetition .oneOrMore (.repetition .zeroOrOne .lineEnd)]

theorem build_ordinary_endsInLoops :
    endsInLoops.Bounded ∧ endsInLoops.normal.program.size ≤ 9223372036854775807 ∧
      endsInLoops.hasLineStart = false ∧ endsInLoops.hasContentAfterEnd = false ∧
      ∃ program, (endsInLoops.build {}).value = .ok program ∧
        (2 + 1) * program.splits ≤ 100000 ∧
        (Machine.mk program {}).run .depthFirst #["a", "a"] =
          .ok (endsInLoops.ordinaryVerdict #["a", "a"]) ∧
        endsInLoops.ordinaryVerdict #["a", "a"] = ⟨true, false⟩ := by
  have bounded : endsInLoops.Bounded := by decide
  have fits : endsInLoops.normal.program.size ≤ ({} : Config).maxAddress := by decide
  have headless : endsInLoops.hasLineStart = false := by decide
  have noContent : endsInLoops.hasContentAfterEnd = false := by decide
  obtain ⟨⟨program, built⟩, agrees⟩ := build_ordinary bounded fits
  have same := build_eq_ok bounded fits built
  have shallow : (2 + 1) * program.splits ≤ 100000 := by
    rw [same]
    decide
  obtain ⟨verdict, ok, -, ordinary⟩ := agrees program built #["a", "a"] (by decide) shallow
  have returns : (Machine.mk program {}).run .depthFirst #["a", "a"] = .ok ⟨true, false⟩ := by
    rw [same]
    decide +kernel
  obtain rfl := ordinary headless noContent
  exact ⟨bounded, fits, headless, noContent, program, built, shallow, ok,
    Except.ok.inj (ok.symm.trans returns)⟩

end Pattern

end PatternMachine

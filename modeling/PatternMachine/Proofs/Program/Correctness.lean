import PatternMachine.Proofs.Machine.Strategies
import PatternMachine.Proofs.Program.Realizes

/-!
# Built programs are correct

A program that is built from a pattern accepts on a text exactly as the pattern means, and both
strategies report this.
-/

namespace PatternMachine

namespace Machine

variable {machine : Machine} {text : Array Symbol} {pattern : Pattern} {stop : Int}

/-- The accepting paths of a program that carries a pattern are the outcomes of the pattern. -/
theorem accepts_iff_means (carries : machine.program.Carries pattern stop)
    (roomy : machine.Roomy text) {flag : Bool} :
    machine.Accepts text ∅ {} flag ↔
      ∃ outcome, pattern.means text 0 false outcome ∧ outcome.headUsed = flag := by
  have realizes := Realizes.of_holds roomy carries.holds
  have last (offset : Nat) (used : Bool) :
      machine.step text ⟨stop, offset, used⟩ = .ok .accept := step_accept carries.accepts
  rw [← exists_acceptsIn_iff]
  constructor
  · rintro ⟨steps, path⟩
    obtain ⟨outcome, means, resumes⟩ := realizes.sound (Nat.zero_le _) path
    refine ⟨outcome, means, ?_⟩
    cases outcome with
    | goes offset used =>
        obtain ⟨fewer, -, path⟩ := resumes
        exact (path.of_accept (last offset used)).symm
    | ends used => exact resumes
  · rintro ⟨outcome, means, rfl⟩
    refine realizes.complete 0 means ?_
    cases outcome with
    | goes offset used => exact ⟨0, Nat.le_refl 0, .accept (last offset used)⟩
    | ends used => rfl

theorem exists_accepts_iff_means (carries : machine.program.Carries pattern stop)
    (roomy : machine.Roomy text) :
    (∃ flag, machine.Accepts text ∅ {} flag) ↔ ∃ outcome, pattern.means text 0 false outcome := by
  simp only [accepts_iff_means carries roomy]
  constructor
  · rintro ⟨flag, outcome, means, -⟩
    exact ⟨outcome, means⟩
  · rintro ⟨outcome, means⟩
    exact ⟨outcome.headUsed, outcome, means, rfl⟩

theorem not_accepts_iff_means (carries : machine.program.Carries pattern stop)
    (roomy : machine.Roomy text) :
    ¬ machine.Accepts text ∅ {} false ↔
      ∀ outcome, pattern.means text 0 false outcome → outcome.headUsed = true := by
  simp only [accepts_iff_means carries roomy, not_exists, not_and, Bool.not_eq_false]

end Machine

namespace Pattern

variable {config : Config} {pattern : Pattern}

/--
A pattern whose program fits is built. On every text that the limits have room for a run from
offset zero returns. It has matched exactly when the pattern has some outcome, it relies on the
start anchor in a depth-first run exactly when all outcomes do, and in a breadth-first run it has
the note of one of them.
-/
theorem build_correct (bounded : pattern.Bounded)
    (fits : pattern.normal.program.size ≤ config.maxAddress) :
    (∃ program, (pattern.build config).value = .ok program) ∧
    ∀ program, (pattern.build config).value = .ok program →
      ∀ text : Array Symbol, text.size ≤ config.maxOffset →
        (text.size + 1) * program.splits ≤ config.maxDepth →
        (∃ verdict, (Machine.mk program config).run .depthFirst text = .ok verdict ∧
          (verdict.matched = true ↔ ∃ outcome, pattern.means text 0 false outcome) ∧
          (verdict.requiresHead = true ↔ (∃ outcome, pattern.means text 0 false outcome) ∧
            ∀ outcome, pattern.means text 0 false outcome → outcome.headUsed = true)) ∧
        ∃ verdict, (Machine.mk program config).run .breadthFirst text = .ok verdict ∧
          (verdict.matched = true ↔ ∃ outcome, pattern.means text 0 false outcome) ∧
          (verdict.matched = true → ∃ outcome, pattern.means text 0 false outcome ∧
            outcome.headUsed = verdict.requiresHead) := by
  refine ⟨⟨_, build_of_fits bounded fits⟩, fun program built text offsets shallow => ?_⟩
  obtain rfl := build_eq_ok bounded fits built
  have roomy : (Machine.mk pattern.normal.program config).Roomy text := ⟨fits, offsets⟩
  have carries := Program.carries_program bounded.normal
  have total := Machine.run_eq_ok roomy carries.closed carries.noIdleCycle shallow
  rw [← means_normal text pattern]
  constructor
  · obtain ⟨verdict, ok⟩ := total .depthFirst
    refine ⟨verdict, ok, ?_⟩
    obtain ⟨leaves, explored, merged⟩ := Machine.runDepth_eq_ok ok
    rw [← Machine.exists_accepts_iff_means carries roomy,
      ← Machine.not_accepts_iff_means carries roomy]
    exact explored.verdict_iff merged
  · obtain ⟨verdict, ok⟩ := total .breadthFirst
    refine ⟨verdict, ok, ?_⟩
    rw [← Machine.exists_accepts_iff_means carries roomy,
      ← Machine.accepts_iff_means carries roomy]
    exact Machine.runBreadth_verdict ok

/-- A star around a star whose body can be the start anchor. -/
def anchoredStars : Pattern :=
  .repetition .zeroOrMore (.repetition .zeroOrMore (.alternative .lineStart (.literal "a")))

theorem build_correct_anchoredStars :
    anchoredStars.Bounded ∧ anchoredStars.normal.program.size ≤ 9223372036854775807 ∧
      ∃ program, (anchoredStars.build {}).value = .ok program ∧
        (1 + 1) * program.splits ≤ 100000 ∧
        (∃ verdict, (Machine.mk program {}).run .depthFirst #["a"] = .ok verdict ∧
          (verdict.requiresHead = true ↔
            (∃ outcome, anchoredStars.means #["a"] 0 false outcome) ∧
              ∀ outcome, anchoredStars.means #["a"] 0 false outcome →
                outcome.headUsed = true)) ∧
        ∃ verdict, (Machine.mk program {}).run .breadthFirst #["a"] = .ok verdict ∧
          (verdict.matched = true ↔ ∃ outcome, anchoredStars.means #["a"] 0 false outcome) := by
  have bounded : anchoredStars.Bounded := by decide
  have fits : anchoredStars.normal.program.size ≤ ({} : Config).maxAddress := by decide
  obtain ⟨⟨program, built⟩, correct⟩ := build_correct bounded fits
  have shallow : (1 + 1) * program.splits ≤ 100000 := by
    rw [build_eq_ok bounded fits built]
    decide
  obtain ⟨⟨verdict, depth, -, requiresHead⟩, other, breadth, matched, -⟩ :=
    correct program built #["a"] (by decide) shallow
  exact ⟨bounded, fits, program, built, shallow, ⟨verdict, depth, requiresHead⟩, other, breadth,
    matched⟩

end Pattern

end PatternMachine

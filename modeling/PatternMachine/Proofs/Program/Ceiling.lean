import PatternMachine.Proofs.Program.Journal

/-!
# Programs at the ceiling of addresses

A tree has one program, and every limit on addresses lets it be built whole or stops the build
just when the limit is reached. Until then the build has emitted the first instructions of the
program, some with targets still to come.
-/

namespace PatternMachine

namespace Draft

variable {limit : Nat} {pattern : Pattern}

theorem steady_empty (limit : Nat) : Steady limit {} where
  counter := rfl
  below := Nat.zero_le limit

/-- What performing the journal leaves is what completing the program leaves. -/
theorem complete_journal (bounded : pattern.Bounded) (limit : Nat) :
    (∃ last, complete limit pattern {} = .ok ⟨last.code⟩ last ∧
        Passes limit pattern.journal {} last ∧
        last.shapes = (pattern.journal.flatMap Operation.emitted).map .shape) ∨
      ∃ error last, complete limit pattern {} = .error error last ∧
        Passes limit pattern.journal {} last ∧
        (error = .addressOverflow → last.code.size = limit) := by
  rw [complete_eq bounded]
  rcases performAll_cases (steady_empty limit) pattern.journal with
    ⟨last, done, passes, shapes⟩ | ⟨error, last, failed, passes, full⟩
  · exact .inl ⟨last, bind_of done, passes, shapes⟩
  · refine .inr ⟨error, last, ?_, passes, full⟩
    simp only [Bind.bind, EStateM.bind, failed]

/-- But for targets the journal emits the instructions of the program. -/
theorem shapes_journal (bounded : pattern.Bounded) :
    (pattern.journal.flatMap Operation.emitted).map Instruction.shape =
      pattern.program.code.toList.map Instruction.shape := by
  obtain ⟨draft, completed⟩ := complete_of bounded (Nat.le_refl pattern.program.size)
  rcases complete_journal bounded pattern.program.size with
    ⟨last, done, -, shapes⟩ | ⟨error, last, failed, -⟩
  · obtain ⟨program, -⟩ := EStateM.Result.ok.inj (completed.symm.trans done)
    rw [program, ← shapes]
    rfl
  · cases completed.symm.trans failed

end Draft

namespace Pattern

variable {config : Config} {pattern : Pattern}

/-- How the build of a tree ends under a configuration, and which drafts it passes through. -/
structure BuildsTo (config : Config) (pattern : Pattern) (program : Program) : Prop where
  fits : program.size ≤ config.maxAddress → (pattern.build config).value = .ok program
  overflows : config.maxAddress < program.size →
    (pattern.build config).value = .error .addressOverflow
  /-- The draft that is left is one that the journal passes through. -/
  passes : Draft.Passes config.maxAddress pattern.normal.journal {}
    (Draft.build config pattern {}).draft
  /-- Between operations the counter stands behind the last instruction and within the limit. -/
  steady : ∀ draft, Draft.Passes config.maxAddress pattern.normal.journal {} draft →
    draft.pc = draft.code.size ∧ draft.code.size ≤ config.maxAddress
  /-- At an overflow as many instructions of the program are emitted as there are addresses. -/
  full : (pattern.build config).value = .error .addressOverflow →
    (Draft.build config pattern {}).draft.code.size = config.maxAddress ∧
      (Draft.build config pattern {}).draft.shapes =
        (program.code.toList.take config.maxAddress).map Instruction.shape

theorem draft_build (bounded : pattern.Bounded) (config : Config) :
    Draft.Passes config.maxAddress pattern.normal.journal {}
        (Draft.build config pattern {}).draft ∧
      ((pattern.build config).value = .error .addressOverflow →
        (Draft.build config pattern {}).draft.code.size = config.maxAddress) := by
  unfold build Draft.build
  simp only [EStateM.run]
  rcases Draft.complete_journal bounded.normal config.maxAddress with
    ⟨last, done, passes, -⟩ | ⟨error, last, failed, passes, full⟩
  · simp only [done]
    exact ⟨passes, fun overflow => by cases overflow⟩
  · simp only [failed]
    exact ⟨passes, fun overflow => full (Except.error.inj overflow)⟩

theorem buildsTo_program (bounded : pattern.Bounded) (config : Config) :
    pattern.BuildsTo config pattern.normal.program where
  fits := build_of_fits bounded
  overflows := by
    intro small
    rw [value_build bounded]
    exact if_neg (Nat.not_le_of_lt small)
  passes := (draft_build bounded config).1
  steady := by
    intro draft passes
    have steady := (Draft.steady_of_passes (Draft.steady_empty _) passes).1
    exact ⟨steady.counter, steady.below⟩
  full := by
    intro overflow
    obtain ⟨passes, reached⟩ := draft_build bounded config
    have front := (Draft.steady_of_passes (Draft.steady_empty _) passes).2
    have emitted : (Draft.build config pattern {}).draft.shapes.length = config.maxAddress := by
      rw [Draft.shapes, List.length_map, Array.length_toList, reached overflow]
    refine ⟨reached overflow, ?_⟩
    rw [Draft.shapes_journal bounded.normal] at front
    have taken := List.prefix_iff_eq_take.mp front
    rw [emitted] at taken
    rw [List.map_take]
    exact taken

/--
A bounded tree has one program, as long as its normal form is wide and one instruction more. It is
built under every limit that it fits, and under every other one the address overflows. Every build
performs the journal of the normal form from first to last, or as far as the limit allows.
-/
theorem exists_buildsTo (bounded : pattern.Bounded) :
    (∀ limit, Draft.complete limit pattern.normal {} =
      (do
        Draft.performAll limit pattern.normal.journal
        return Program.mk (← MonadState.get).code) {}) ∧
    ∃ program : Program, program.size = pattern.normal.width + 1 ∧
      ∀ config, pattern.BuildsTo config program :=
  ⟨Draft.complete_eq bounded.normal, pattern.normal.program, pattern.normal.size_program,
    buildsTo_program bounded⟩

def loopedChoice : Pattern :=
  .repetition .zeroOrMore
    (.repetition .zeroOrMore (.alternative (.literal "a") (.repetition .zeroOrOne .wildcard)))

/-- The normal form needs eight instructions; under a limit of five the first five are emitted. -/
theorem exists_buildsTo_loopedChoice :
    loopedChoice.Bounded ∧ ∃ program : Program, program.size = 8 ∧
      (loopedChoice.build { maxAddress := 8 }).value = .ok program ∧
      (loopedChoice.build { maxAddress := 5 }).value = .error .addressOverflow ∧
      (Draft.build { maxAddress := 5 } loopedChoice {}).draft.code.size = 5 ∧
      (Draft.build { maxAddress := 5 } loopedChoice {}).draft.shapes =
        (program.code.toList.take 5).map Instruction.shape := by
  have bounded : loopedChoice.Bounded := by decide
  obtain ⟨-, program, size, builds⟩ := exists_buildsTo bounded
  have size : program.size = 8 := size
  have overflow := (builds { maxAddress := 5 }).overflows (by simp [size])
  obtain ⟨full, shapes⟩ := (builds { maxAddress := 5 }).full overflow
  exact ⟨bounded, program, size, (builds { maxAddress := 8 }).fits (by simp [size]), overflow, full,
    shapes⟩

end Pattern

end PatternMachine

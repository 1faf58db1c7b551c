import PatternMachine.Proofs.Machine.Control
import PatternMachine.Proofs.Machine.Limits
import PatternMachine.Proofs.Program.Fits
import PatternMachine.Proofs.Program.Region

/-!
# Evaluations end

Every program without a cycle of jumps and start anchors is evaluated in finitely many steps, under
either strategy and whatever the text and the limits are, and so is every program that was built.
What stops an evaluation without a verdict is a limit or an address outside the program.
-/

namespace PatternMachine

namespace Machine

variable {machine : Machine} {text : Array Symbol} {thread : Thread} {strategy : Strategy}

/-! ## Faults -/

theorem symbolAt?_isSome (within : thread.Within text) (before : thread.offset < text.size) :
    ∃ symbol, symbolAt? text thread.offset = some symbol := by
  obtain ⟨offset, at_⟩ := Int.eq_ofNat_of_zero_le within.nonneg
  have inside : offset < text.size := by omega
  refine ⟨text[offset], ?_⟩
  rw [symbolAt?, if_pos within.nonneg, at_]
  exact Array.getElem?_eq_getElem inside

theorem step_ne_noSymbol (within : thread.Within text) (address : Int) :
    machine.step text thread ≠ .error ⟨.noSymbol, address⟩ := by
  intro error
  have notConsumed : machine.config.consume thread ≠ .error ⟨.noSymbol, address⟩ :=
    fun consumed => by simpa using (Config.consume_eq_error consumed).2
  unfold step at error
  split at error
  · cases error
  · rename_i instruction fetched
    cases instruction with
    | literal symbol =>
        simp only [Config.step] at error
        split at error
        · rename_i before
          obtain ⟨found, here⟩ := symbolAt?_isSome within before
          simp only [here] at error
          split at error
          · exact notConsumed error
          · cases error
        · cases error
    | any =>
        simp only [Config.step] at error
        split at error
        · exact notConsumed error
        · cases error
    | head =>
        rw [Config.step_head_eq_bind] at error
        split at error
        · cases advanced : machine.config.nextAddress thread with
          | error fault =>
              rw [advanced, Config.nextAddress_eq_error advanced] at error
              cases error
          | ok pc =>
              rw [advanced] at error
              cases error
        · cases error
    | matchEnd =>
        simp only [Config.step] at error
        split at error <;> cases error
    | jump target | split first second | accept => cases error

theorem reason_of_step (within : thread.Within text) {fault : Fault}
    (error : machine.step text thread = .error fault) :
    fault.reason = .invalidAddress ∨ fault.reason.isLimit = true := by
  obtain ⟨reason, address⟩ := fault
  rcases (step_eq_error error).2 with rfl | rfl | rfl | rfl
  · exact .inl rfl
  · exact .inr rfl
  · exact .inr rfl
  · exact absurd error (step_ne_noSymbol within address)

/-! ## Evaluations -/

/--
The evaluation of the text ends after finitely many steps with what the run returns, a verdict or a
fault for a limit or for an address outside the program.
-/
structure Finishes (machine : Machine) (text : Array Symbol) (strategy : Strategy) : Prop where
  returns : (machine.walk text strategy).Returns (machine.run strategy text)
  faults : ∀ fault, machine.run strategy text = .error fault →
    fault.reason = .invalidAddress ∨ fault.reason.isLimit = true

theorem run_ne_endless (acyclic : machine.program.NoIdleCycle) (address : Int) :
    machine.run strategy text ≠ .error ⟨.endless, address⟩ := by
  cases strategy with
  | breadthFirst => exact runBreadth_ends acyclic text address
  | depthFirst =>
      obtain ⟨leaves, explored, merged | ⟨-, other, limit⟩⟩ := runDepth_total acyclic text
      · intro endless
        rw [run, merged] at endless
        obtain ⟨final, error⟩ := explored.step_of_faults (Leaf.mem_of_merged_eq_error endless)
        simpa using (step_eq_error error).2
      · rw [run, limit]
        simp

theorem reason_of_ends {last : (machine.walk text strategy).State} {fault : Fault}
    (comes : (machine.walk text strategy).ComesTo last)
    (ends : (machine.walk text strategy).Ends last (.error fault)) :
    fault.reason = .invalidAddress ∨ fault.reason.isLimit = true := by
  rcases step_of_ends comes ends with limit | ⟨thread, reaches, error⟩
  · rw [limit]
    exact .inr rfl
  · exact reason_of_step (within_of_reaches reaches) error

theorem finishes (acyclic : machine.program.NoIdleCycle) (text : Array Symbol)
    (strategy : Strategy) : machine.Finishes text strategy where
  returns := walk_returns_run (run_ne_endless acyclic)
  faults := by
    intro fault error
    obtain ⟨last, comes, ends⟩ := (walk_returns_run (run_ne_endless acyclic)).exists_ends
    rw [error] at ends
    exact reason_of_ends comes ends

end Machine

/-! ## Built programs -/

namespace Pattern

variable {pattern : Pattern} {config : Config} {program : Program}

theorem noIdleCycle_of_build (bounded : pattern.Bounded)
    (built : (pattern.build config).value = .ok program) : program.NoIdleCycle := by
  obtain rfl := build_eq_ok bounded (size_program_le_of_build built) built
  exact (Program.carries_program bounded.normal).noIdleCycle

/--
Both strategies end on every text and under every configuration, with a verdict or a fault of
evaluation, for every program without a cycle of jumps and start anchors. Built programs, under
whatever configuration they were built, have no such cycle, however their loops are nested.
-/
theorem evaluation_finishes :
    (∀ machine : Machine, machine.program.NoIdleCycle →
      ∀ text strategy, machine.Finishes text strategy) ∧
    ∀ (pattern : Pattern) (config : Config) (program : Program), pattern.Bounded →
      (pattern.build config).value = .ok program →
        program.NoIdleCycle ∧
          ∀ (config' : Config) text strategy,
            Machine.Finishes ⟨program, config'⟩ text strategy := by
  refine ⟨fun machine acyclic => machine.finishes acyclic, ?_⟩
  intro pattern config program bounded built
  have acyclic := noIdleCycle_of_build bounded built
  exact ⟨acyclic, fun config' => Machine.finishes acyclic⟩

def emptyBodies : Pattern :=
  .repetition .oneOrMore (.alternative (.sequence [])
    (.repetition .zeroOrMore
      (.sequence [.repetition .zeroOrOne (.literal "a"), .lineStart])))

theorem evaluation_finishes_emptyBodies :
    emptyBodies.Bounded ∧
      (∃ program, (emptyBodies.build {}).value = .ok program ∧ program.NoIdleCycle ∧
        Machine.Finishes ⟨program, {}⟩ #["a"] .depthFirst ∧
        (Machine.walk ⟨program, {}⟩ #["a"] .depthFirst).Returns (.ok ⟨true, false⟩) ∧
        (Machine.walk ⟨program, { maxOffset := 0 }⟩ #["a"] .depthFirst).Returns
          (.error ⟨.offsetOverflow, 4⟩)) ∧
      Machine.emptyLoop.Finishes #["a"] .breadthFirst := by
  obtain ⟨anyProgram, builtProgram⟩ := evaluation_finishes
  have bounded : emptyBodies.Bounded := by decide
  have built : (emptyBodies.build {}).value = .ok emptyBodies.normal.program := by rfl
  obtain ⟨acyclic, finishes⟩ := builtProgram _ _ _ bounded built
  have plain : (Machine.mk emptyBodies.normal.program {}).run .depthFirst #["a"] =
      .ok ⟨true, false⟩ := by decide +kernel
  have narrow : (Machine.mk emptyBodies.normal.program { maxOffset := 0 }).run .depthFirst
      #["a"] = .error ⟨.offsetOverflow, 4⟩ := by decide +kernel
  have loop : Machine.emptyLoop.program.NoIdleCycle := by
    refine Program.NoIdleCycle.of_jumps fun a b jump => .inr ⟨1, 2, ?_⟩
    obtain ⟨index, rfl, found⟩ := Program.fetch?_eq_some_iff.mp jump
    have inside : index < 3 := (Array.getElem?_eq_some_iff.mp found).1
    interval_cases index <;> cases found
    rfl
  refine ⟨bounded, ⟨_, built, acyclic, finishes {} _ _, ?_, ?_⟩, anyProgram _ loop _ _⟩
  · exact plain ▸ (finishes {} #["a"] .depthFirst).returns
  · exact narrow ▸ (finishes { maxOffset := 0 } #["a"] .depthFirst).returns

end Pattern

end PatternMachine

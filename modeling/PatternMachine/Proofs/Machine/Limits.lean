import PatternMachine.Proofs.Machine.Descent

/-!
# Limits

The limits of a configuration decide nothing but whether a run fails. Two machines with the same
program, one with lower limits than the other, go through the same steps until the first of them
meets a limit; from there on it fails for that limit. So its results are those of the other, or
they are no answers at all.
-/

namespace PatternMachine

namespace FaultReason

def isLimit : FaultReason → Bool
  | .addressOverflow | .offsetOverflow | .depthLimit => true
  | .invalidAddress | .noContext | .noSymbol | .endless => false

end FaultReason

/-- No limit of the first configuration is higher than that of the second. -/
structure Config.Tighter (config config' : Config) : Prop where
  address : config.maxAddress ≤ config'.maxAddress
  offset : config.maxOffset ≤ config'.maxOffset
  depth : config.maxDepth ≤ config'.maxDepth

/-- The first result is the second, or it is a limit that was met. -/
def SameUnlessLimit {Result : Type} (result result' : Except Fault Result) : Prop :=
  result = result' ∨ ∃ fault, result = .error fault ∧ fault.reason.isLimit = true

namespace SameUnlessLimit

variable {Result Next : Type} {result result' : Except Fault Result}

theorem refl (result : Except Fault Result) : SameUnlessLimit result result :=
  .inl rfl

theorem of_limit {fault : Fault} (limit : fault.reason.isLimit = true) :
    SameUnlessLimit (.error fault) result' :=
  .inr ⟨fault, rfl, limit⟩

theorem bind {next next' : Result → Except Fault Next} (same : SameUnlessLimit result result')
    (later : ∀ value, SameUnlessLimit (next value) (next' value)) :
    SameUnlessLimit (result.bind next) (result'.bind next') := by
  rcases same with rfl | ⟨fault, rfl, limit⟩
  · cases result with
    | error fault => exact .refl _
    | ok value => exact later value
  · exact .of_limit limit

end SameUnlessLimit

namespace Config

variable {config config' : Config}

theorem checkedAdd_tighter {value limit limit' : Int} {fault : Fault} (le : limit ≤ limit')
    (isLimit : fault.reason.isLimit = true) :
    SameUnlessLimit (checkedAdd value 1 limit fault) (checkedAdd value 1 limit' fault) := by
  by_cases beyond : limit < value + 1
  · rw [checkedAdd, if_pos beyond]
    exact .of_limit isLimit
  · have beyond' : ¬ limit' < value + 1 := by omega
    rw [checkedAdd, checkedAdd, if_neg beyond, if_neg beyond']
    exact .refl _

theorem consume_eq_bind (config : Config) (thread : Thread) :
    config.consume thread =
      (config.nextAddress thread).bind fun pc =>
        (config.nextOffset thread).bind fun offset =>
          .ok (.advance { thread with pc := pc, offset := offset }) := by
  unfold consume
  cases config.nextAddress thread with
  | error fault => rfl
  | ok pc => cases config.nextOffset thread <;> rfl

theorem step_head_eq_bind (config : Config) (text : Array Symbol) (thread : Thread) :
    config.step text .head thread =
      if thread.offset = 0 then
        (config.nextAddress thread).bind fun pc =>
          .ok (.advance { thread with pc := pc, headUsed := true })
      else .ok .fail := by
  simp only [step]
  cases config.nextAddress thread <;> rfl

section Tighter

variable (tighter : config.Tighter config')
include tighter

theorem nextAddress_tighter (thread : Thread) :
    SameUnlessLimit (config.nextAddress thread) (config'.nextAddress thread) :=
  checkedAdd_tighter (Int.ofNat_le.mpr tighter.address) rfl

theorem nextOffset_tighter (thread : Thread) :
    SameUnlessLimit (config.nextOffset thread) (config'.nextOffset thread) :=
  checkedAdd_tighter (Int.ofNat_le.mpr tighter.offset) rfl

theorem consume_tighter (thread : Thread) :
    SameUnlessLimit (config.consume thread) (config'.consume thread) := by
  rw [consume_eq_bind, consume_eq_bind]
  exact (nextAddress_tighter tighter thread).bind fun _ =>
    (nextOffset_tighter tighter thread).bind fun _ => .refl _

/-- An instruction does the same under both configurations, unless it meets a limit. -/
theorem step_tighter (text : Array Symbol) (instruction : Instruction) (thread : Thread) :
    SameUnlessLimit (config.step text instruction thread)
      (config'.step text instruction thread) := by
  cases instruction with
  | literal symbol =>
      simp only [step]
      split
      · split
        · exact .refl _
        · split
          · exact consume_tighter tighter thread
          · exact .refl _
      · exact .refl _
  | any =>
      simp only [step]
      split
      · exact consume_tighter tighter thread
      · exact .refl _
  | head =>
      rw [step_head_eq_bind, step_head_eq_bind]
      split
      · exact (nextAddress_tighter tighter thread).bind fun _ => .refl _
      · exact .refl _
  | matchEnd | jump target | split first second | accept => exact .refl _

end Tighter

end Config

namespace Machine

variable {config config' : Config}

section Tighter

variable (tighter : config.Tighter config') (program : Program)
include tighter

theorem step_tighter (text : Array Symbol) (thread : Thread) :
    SameUnlessLimit (Machine.step ⟨program, config⟩ text thread)
      (Machine.step ⟨program, config'⟩ text thread) := by
  unfold step
  cases program.fetch? thread.pc with
  | none => exact .refl _
  | some instruction => exact config.step_tighter tighter text instruction thread

theorem guardedStep_tighter (text : Array Symbol) (marks : Marks) (thread : Thread) :
    SameUnlessLimit (Machine.guardedStep ⟨program, config⟩ text marks thread)
      (Machine.guardedStep ⟨program, config'⟩ text marks thread) := by
  rcases step_tighter tighter program text thread with
    same | ⟨fault, stopped, limit⟩
  · unfold guardedStep
    rw [same]
    exact .refl _
  · rw [guardedStep_eq_error_iff.mpr stopped]
    exact .of_limit limit

/-- Explorations under both configurations keep step, unless the first meets a limit. -/
theorem explore_tighter (text : Array Symbol) (steps : Nat) (thread : Thread) (marks : Marks) :
    SameUnlessLimit (Machine.explore ⟨program, config⟩ text steps thread marks)
      (Machine.explore ⟨program, config'⟩ text steps thread marks) := by
  induction steps generalizing thread marks with
  | zero => exact .refl _
  | succ steps ih =>
      rcases guardedStep_tighter tighter program text marks thread with
        same | ⟨fault, stopped, limit⟩
      · cases step : Machine.guardedStep ⟨program, config'⟩ text marks thread with
        | error fault =>
            rw [explore_fault (same.trans step), explore_fault step]
            exact .refl _
        | ok asked =>
            cases asked with
            | fail =>
                rw [explore_fail (same.trans step), explore_fail step]
                exact .refl _
            | accept =>
                rw [explore_accept (same.trans step), explore_accept step]
                exact .refl _
            | advance next =>
                rw [explore_advance (same.trans step), explore_advance step]
                exact ih next marks
            | fork first second =>
                by_cases room : marks.size < config.maxDepth
                · rw [explore_fork (same.trans step) room,
                    explore_fork step (Nat.lt_of_lt_of_le room tighter.depth)]
                  exact (ih first _).bind fun one => (ih second one.2).bind fun _ => .refl _
                · rw [explore_full (same.trans step) (Nat.le_of_not_lt room)]
                  exact .of_limit rfl
      · rw [explore_fault stopped]
        exact .of_limit limit

theorem follow_tighter (text : Array Symbol) (steps : Nat) (thread : Thread)
    (saved : List Thread) (marks : Marks) :
    SameUnlessLimit (Machine.follow ⟨program, config⟩ text steps thread saved marks)
      (Machine.follow ⟨program, config'⟩ text steps thread saved marks) := by
  induction steps generalizing thread saved marks with
  | zero => exact .refl _
  | succ steps ih =>
      rw [follow_succ, follow_succ]
      rcases guardedStep_tighter tighter program text marks thread with
        same | ⟨fault, stopped, limit⟩
      · rw [same]
        cases Machine.guardedStep ⟨program, config'⟩ text marks thread with
        | error fault => exact .refl _
        | ok asked =>
            cases asked with
            | accept => exact .refl _
            | fail =>
                cases saved with
                | nil => exact .refl _
                | cons next rest => exact ih next rest marks
            | advance next => exact ih next saved marks
            | fork first second => exact ih first (second :: saved) _
      · rw [stopped]
        exact .of_limit limit

theorem run_tighter (strategy : Strategy) (text : Array Symbol) :
    SameUnlessLimit (Machine.run ⟨program, config⟩ strategy text)
      (Machine.run ⟨program, config'⟩ strategy text) := by
  cases strategy with
  | depthFirst =>
      simp only [run, runDepth_eq_bind]
      exact (explore_tighter tighter program text _ _ _).bind fun _ => .refl _
  | breadthFirst => exact follow_tighter tighter program text _ _ _ _

theorem searchAt_tighter (strategy : Strategy) (line : Array Symbol) (offsets : List Nat) :
    Machine.searchAt ⟨program, config⟩ strategy line offsets =
        Machine.searchAt ⟨program, config'⟩ strategy line offsets ∨
      ∃ fault, (Machine.searchAt ⟨program, config⟩ strategy line offsets).value = .error fault ∧
        fault.reason.isLimit = true := by
  induction offsets with
  | nil => exact .inl rfl
  | cons offset later ih =>
      simp only [searchAt, runLogged]
      rcases run_tighter tighter program strategy
        (line.extract offset line.size) with same | ⟨fault, stopped, limit⟩
      · rw [same]
        cases Machine.run ⟨program, config'⟩ strategy (line.extract offset line.size) with
        | error fault => exact .inl rfl
        | ok verdict =>
            simp only
            split
            · exact .inl rfl
            · rcases ih with same | stopped
              · rw [same]
                exact .inl rfl
              · exact .inr stopped
      · rw [stopped]
        exact .inr ⟨fault, rfl, limit⟩

end Tighter

/--
Limits turn answers into faults and change no answer. Under lower limits a run returns the same
verdict or fails with the same fault at the same address, or else it fails for a limit; and so does
the search of a line, with all that it reports.
-/
theorem run_sameUnlessLimit (tighter : config.Tighter config') (program : Program)
    (strategy : Strategy) :
    (∀ text, SameUnlessLimit (Machine.run ⟨program, config⟩ strategy text)
      (Machine.run ⟨program, config'⟩ strategy text)) ∧
    ∀ line, SameUnlessLimit (Machine.matchLine ⟨program, config⟩ strategy line).value
        (Machine.matchLine ⟨program, config'⟩ strategy line).value ∧
      (Machine.matchLine ⟨program, config⟩ strategy line =
          Machine.matchLine ⟨program, config'⟩ strategy line ∨
        ∃ fault, (Machine.matchLine ⟨program, config⟩ strategy line).value = .error fault ∧
          fault.reason.isLimit = true) := by
  refine ⟨run_tighter tighter program strategy, fun line => ?_⟩
  have search := searchAt_tighter tighter program strategy line
    (List.range (line.size + 1))
  exact ⟨search.imp (congrArg Logged.value) id, search⟩

/-- Without room for a split a depth-first run fails where it has a verdict with the usual room. -/
theorem run_sameUnlessLimit_emptyLoop :
    Config.Tighter { maxDepth := 0 } {} ∧
      Machine.run ⟨emptyLoop.program, { maxDepth := 0 }⟩ .depthFirst #[] =
        .error ⟨.depthLimit, 0⟩ ∧
      emptyLoop.run .depthFirst #[] = .ok ⟨true, false⟩ ∧
      Machine.run ⟨emptyLoop.program, { maxDepth := 0 }⟩ .breadthFirst #[] =
        emptyLoop.run .breadthFirst #[] ∧
      SameUnlessLimit (Machine.run ⟨emptyLoop.program, { maxDepth := 0 }⟩ .depthFirst #[])
        (emptyLoop.run .depthFirst #[]) ∧
      SameUnlessLimit
        (Machine.matchLine ⟨emptyLoop.program, { maxDepth := 0 }⟩ .depthFirst #["a"]).value
        (emptyLoop.matchLine .depthFirst #["a"]).value := by
  have tighter : Config.Tighter { maxDepth := 0 } {} :=
    ⟨Nat.le_refl _, Nat.le_refl _, Nat.zero_le _⟩
  obtain ⟨runs, searches⟩ := run_sameUnlessLimit tighter emptyLoop.program .depthFirst
  exact ⟨tighter, by decide +kernel, by decide +kernel, by decide +kernel, runs #[],
    (searches #["a"]).1⟩

end Machine

end PatternMachine

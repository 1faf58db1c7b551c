import PatternMachine.Proofs.Machine.Nesting

/-!
# Control of valid programs

In a valid program every jump and both sides of every split lead to an instruction. The only other
way on is to the address behind an instruction that passes control on, so that control leaves the
program just behind its last instruction and nowhere else, and not at all if the last instruction
does not pass control on. This holds of the thread that an evaluation follows and of every thread
that it has saved.
-/

namespace PatternMachine

/-- The instruction may pass control to the address behind it. -/
def Instruction.passesOn : Instruction → Bool
  | .literal _ | .any | .head => true
  | .matchEnd | .jump _ | .split _ _ | .accept => false

namespace Program

variable {program : Program} {instruction : Instruction} {a b address target : Int}

theorem successor_cases (mem : b ∈ instruction.successors a) :
    b ∈ instruction.targets ∨ (instruction.passesOn = true ∧ b = a + 1) := by
  cases instruction with
  | literal symbol | any | head => exact .inr ⟨rfl, List.mem_singleton.mp mem⟩
  | jump target | split first second => exact .inl mem
  | matchEnd | accept => exact absurd mem List.not_mem_nil

/-- The program has an open end: it is empty, or its last instruction passes control on. -/
def OpenEnded (program : Program) : Prop :=
  program.code = #[] ∨ ∃ last, program.code.back? = some last ∧ last.passesOn = true

/-- An address where control of a valid program can stand. -/
structure Admits (program : Program) (address : Int) : Prop where
  nonneg : 0 ≤ address
  le_size : address ≤ program.size
  openEnded : address = program.size → program.OpenEnded

namespace Admits

theorem start (program : Program) : program.Admits 0 where
  nonneg := Int.le_refl 0
  le_size := Int.natCast_nonneg program.size
  openEnded := by
    intro empty
    have size : program.code.size = 0 := by
      unfold size at empty
      omega
    exact .inl (Array.eq_empty_of_size_eq_zero size)

theorem of_inBounds (inside : program.inBounds address = true) : program.Admits address := by
  simp only [inBounds, Bool.and_eq_true, decide_eq_true_eq] at inside
  obtain ⟨nonneg, before⟩ := inside
  exact ⟨nonneg, Int.le_of_lt before, fun behind => absurd before (by omega)⟩

theorem of_passesOn (fetched : program.fetch? address = some instruction)
    (passesOn : instruction.passesOn = true) : program.Admits (address + 1) := by
  obtain ⟨nonneg, before⟩ := bounds_of_fetch? fetched
  refine ⟨by omega, by omega, fun behind => .inr ⟨instruction, ?_, passesOn⟩⟩
  obtain ⟨index, rfl, found⟩ := fetch?_eq_some_iff.mp fetched
  obtain rfl : index = program.code.size - 1 := by
    unfold size at behind
    omega
  rw [Array.back?_eq_getElem?]
  exact found

theorem eq_size (admits : program.Admits address) (missing : program.fetch? address = none) :
    address = program.size := by
  have outside := fetch?_eq_none_iff.mp missing
  simp only [inBounds, Bool.and_eq_false_iff, decide_eq_false_iff_not] at outside
  have nonneg := admits.nonneg
  have le_size := admits.le_size
  omega

end Admits

theorem inBounds_of_isValid (valid : program.isValid = true)
    (fetched : program.fetch? address = some instruction) (named : target ∈ instruction.targets) :
    program.inBounds target = true := by
  obtain ⟨index, -, found⟩ := fetch?_eq_some_iff.mp fetched
  exact List.all_eq_true.mp (Array.all_eq_true'.mp valid _ (Array.mem_of_getElem? found)) _ named

/-- From wherever control of a valid program is, it goes to an address where it can stand. -/
theorem Flows.admits (flows : program.Flows a b) (valid : program.isValid = true) :
    program.Admits b := by
  obtain ⟨instruction, fetched, mem⟩ := flows
  rcases successor_cases mem with named | ⟨passesOn, rfl⟩
  · exact .of_inBounds (inBounds_of_isValid valid fetched named)
  · exact .of_passesOn fetched passesOn

end Program

namespace Machine

variable {machine : Machine} {text : Array Symbol} {thread : Thread} {strategy : Strategy}
  {fault : Fault}

theorem admits_of_reaches (valid : machine.program.isValid = true)
    (reaches : machine.Reaches text thread) : machine.program.Admits thread.pc := by
  induction reaches with
  | refl => exact .start machine.program
  | tail _ move _ => exact move.flows.admits valid

theorem fetch?_of_invalidAddress (error : machine.step text thread = .error fault)
    (invalid : fault.reason = .invalidAddress) : machine.program.fetch? thread.pc = none := by
  cases fetched : machine.program.fetch? thread.pc with
  | none => rfl
  | some instruction =>
      have effect : Effect text thread instruction (machine.step text thread) :=
        step_effect fetched
      rw [error] at effect
      cases effect with
      | fault _ reason => simp [invalid] at reason

/-- Where a walk ends with a fault, the nesting met its limit or a thread on the way faulted. -/
theorem step_of_ends {last : (machine.walk text strategy).State}
    (comes : (machine.walk text strategy).ComesTo last)
    (ends : (machine.walk text strategy).Ends last (.error fault)) :
    fault.reason = .depthLimit ∨
      ∃ thread, machine.Reaches text thread ∧ machine.step text thread = .error fault := by
  cases strategy with
  | depthFirst =>
      cases ends with
      | fault step =>
          have reaches := (Nested.of_descendsTo comes).follows.reaches
          exact .inr ⟨_, reaches, guardedStep_eq_error_iff.mp step⟩
      | full => exact .inl rfl
  | breadthFirst =>
      cases ends with
      | fault step =>
          have reaches := reaches_of_comesTo comes _ List.mem_cons_self
          exact .inr ⟨_, reaches, guardedStep_eq_error_iff.mp step⟩

/--
The evaluation fails with the fault. That is what the run returns, or what the walk returns, which
is given no number of steps.
-/
def FailsWith (machine : Machine) (text : Array Symbol) (strategy : Strategy) (fault : Fault) :
    Prop :=
  machine.run strategy text = .error fault ∨ (machine.walk text strategy).Returns (.error fault)

theorem exists_reaches_of_invalidAddress (fails : machine.FailsWith text strategy fault)
    (invalid : fault.reason = .invalidAddress) :
    ∃ thread, machine.Reaches text thread ∧ machine.step text thread = .error fault := by
  have returns : (machine.walk text strategy).Returns (.error fault) := by
    rcases fails with ran | returns
    · rw [← ran]
      refine walk_returns_run fun address endless => ?_
      rw [ran, Except.error.injEq] at endless
      simp [endless] at invalid
    · exact returns
  obtain ⟨last, comes, ends⟩ := returns.exists_ends
  rcases step_of_ends comes ends with limit | reaches
  · simp [invalid] at limit
  · exact reaches

/-- An evaluation of a valid program strays only behind an open end of it. -/
theorem address_of_invalidAddress (valid : machine.program.isValid = true)
    (fails : machine.FailsWith text strategy fault) (invalid : fault.reason = .invalidAddress) :
    fault.address = machine.program.size ∧ machine.program.OpenEnded := by
  obtain ⟨thread, reaches, error⟩ := exists_reaches_of_invalidAddress fails invalid
  have admits := admits_of_reaches valid reaches
  have behind := admits.eq_size (fetch?_of_invalidAddress error invalid)
  rw [(step_eq_error error).1]
  exact ⟨behind, admits.openEnded behind⟩

/--
What validity guarantees of evaluations, whatever the program, the text, the limits and the
strategy. An invalid address is the one just behind the program; and where the program ends with an
instruction that does not pass control on, no address is invalid.
-/
theorem invalidAddress_of_isValid (valid : machine.program.isValid = true) (text : Array Symbol)
    (strategy : Strategy) :
    (∀ fault, machine.FailsWith text strategy fault → fault.reason = .invalidAddress →
      fault.address = machine.program.size) ∧
    ∀ last, machine.program.code.back? = some last → last.passesOn = false →
      ∀ fault, machine.FailsWith text strategy fault → fault.reason ≠ .invalidAddress := by
  refine ⟨fun fault fails invalid => (address_of_invalidAddress valid fails invalid).1, ?_⟩
  intro last ended halts fault fails invalid
  rcases (address_of_invalidAddress valid fails invalid).2 with empty | ⟨other, same, passesOn⟩
  · simp [empty] at ended
  · obtain rfl := Option.some.inj (ended.symm.trans same)
    simp [halts] at passesOn

/-- A loop that reads symbols and is left for an instruction that passes control on. -/
def runningOut : Machine :=
  ⟨⟨#[.jump 2, .literal "a", .split 1 3, .any]⟩, {}⟩

def closedLoop : Machine :=
  ⟨⟨#[.literal "a", .split 0 2, .any, .jump 1]⟩, {}⟩

theorem invalidAddress_of_isValid_loops :
    runningOut.program.isValid = true ∧
      runningOut.run .depthFirst #["a", "b"] = .error ⟨.invalidAddress, 4⟩ ∧
      (∀ fault, runningOut.FailsWith #["a", "b"] .breadthFirst fault →
        fault.reason = .invalidAddress → fault.address = 4) ∧
      closedLoop.program.isValid = true ∧
      closedLoop.program.code.back? = some (.jump 1) ∧
      ∀ fault, closedLoop.FailsWith #["a", "b"] .depthFirst fault →
        fault.reason ≠ .invalidAddress := by
  have opened : runningOut.program.isValid = true := by decide +kernel
  have closed : closedLoop.program.isValid = true := by decide +kernel
  have ended : closedLoop.program.code.back? = some (.jump 1) := by decide
  refine ⟨opened, by decide +kernel, ?_, closed, ended, ?_⟩
  · exact (invalidAddress_of_isValid opened #["a", "b"] .breadthFirst).1
  · exact (invalidAddress_of_isValid closed #["a", "b"] .depthFirst).2 _ ended rfl

end Machine

end PatternMachine

import PatternMachine.Proofs.Machine.Termination

/-!
# Machines with room

The limits of a machine leave room for a text when every address of the program and every offset
of the text has a successor within them. Threads in the text then step by the instruction at
their address alone, and a program whose control stays among its instructions never faults.
-/

namespace PatternMachine

namespace Program

/-- Control starts at an instruction and never leaves the program. -/
structure Closed (program : Program) : Prop where
  start : (program.fetch? 0).isSome
  flows {a b : Int} (flows : program.Flows a b) : (program.fetch? b).isSome

theorem bounds_of_fetch? {program : Program} {address : Int} {instruction : Instruction}
    (fetched : program.fetch? address = some instruction) :
    0 ≤ address ∧ address < program.size := by
  obtain ⟨index, rfl, found⟩ := fetch?_eq_some_iff.mp fetched
  have inside := (Array.getElem?_eq_some_iff.mp found).1
  exact ⟨by omega, by unfold size; omega⟩

end Program

namespace Machine

variable {machine : Machine} {text : Array Symbol} {address : Int} {offset : Nat} {used : Bool}

/-- The limits have room for all addresses of the program and all offsets of the text. -/
structure Roomy (machine : Machine) (text : Array Symbol) : Prop where
  addresses : machine.program.size ≤ machine.config.maxAddress
  offsets : text.size ≤ machine.config.maxOffset

/-! ## One step of each instruction -/

namespace Roomy

theorem nextAddress_eq (roomy : machine.Roomy text) {thread : Thread} {instruction : Instruction}
    (fetched : machine.program.fetch? thread.pc = some instruction) :
    machine.config.nextAddress thread = .ok (thread.pc + 1) := by
  have inside := (Program.bounds_of_fetch? fetched).2
  have room := roomy.addresses
  rw [Config.nextAddress, checkedAdd, if_neg (by omega)]

theorem consume_eq (roomy : machine.Roomy text) {thread : Thread} {instruction : Instruction}
    (fetched : machine.program.fetch? thread.pc = some instruction)
    (inside : thread.offset < text.size) :
    machine.config.consume thread =
      .ok (.advance ⟨thread.pc + 1, thread.offset + 1, thread.headUsed⟩) := by
  have room := roomy.offsets
  have moved : machine.config.nextOffset thread = .ok (thread.offset + 1) := by
    rw [Config.nextOffset, checkedAdd, if_neg (by omega)]
  simp only [Config.consume, roomy.nextAddress_eq fetched, moved]

theorem step_literal (roomy : machine.Roomy text) {symbol : Symbol}
    (fetched : machine.program.fetch? address = some (.literal symbol)) :
    machine.step text ⟨address, offset, used⟩ =
      if text[offset]? = some symbol then .ok (.advance ⟨address + 1, (offset + 1 : Nat), used⟩)
      else .ok .fail := by
  simp only [step, fetched, Config.step]
  by_cases inside : offset < text.size
  · have found : symbolAt? text offset = some text[offset] := by simp [symbolAt?, inside]
    rw [if_pos (by omega), found]
    simp only [Array.getElem?_eq_getElem inside, Option.some.injEq]
    split
    · exact roomy.consume_eq fetched (by simp only; omega)
    · rfl
  · rw [if_neg (by omega), Array.getElem?_eq_none (by omega)]
    rfl

theorem step_any (roomy : machine.Roomy text)
    (fetched : machine.program.fetch? address = some .any) :
    machine.step text ⟨address, offset, used⟩ =
      if offset < text.size then .ok (.advance ⟨address + 1, (offset + 1 : Nat), used⟩)
      else .ok .fail := by
  simp only [step, fetched, Config.step]
  by_cases inside : offset < text.size
  · rw [if_pos (by omega), if_pos inside]
    exact roomy.consume_eq fetched (by simp only; omega)
  · rw [if_neg (by omega), if_neg inside]

theorem step_head (roomy : machine.Roomy text)
    (fetched : machine.program.fetch? address = some .head) :
    machine.step text ⟨address, offset, used⟩ =
      if offset = 0 then .ok (.advance ⟨address + 1, offset, true⟩) else .ok .fail := by
  simp only [step, fetched, Config.step]
  by_cases start : offset = 0
  · rw [if_pos (by omega), if_pos start, roomy.nextAddress_eq fetched]
  · rw [if_neg (by omega), if_neg start]

end Roomy

theorem step_matchEnd (fetched : machine.program.fetch? address = some .matchEnd) :
    machine.step text ⟨address, offset, used⟩ =
      if text.size ≤ offset then .ok .accept else .ok .fail := by
  simp only [step, fetched, Config.step, Int.ofNat_le]

section Control

variable {marks : Marks} {offset : Int} {first second target : Int}

theorem step_jump (fetched : machine.program.fetch? address = some (.jump target)) :
    machine.step text ⟨address, offset, used⟩ = .ok (.advance ⟨target, offset, used⟩) := by
  simp only [step, fetched, Config.step]

theorem step_split (fetched : machine.program.fetch? address = some (.split first second)) :
    machine.step text ⟨address, offset, used⟩ =
      .ok (.fork ⟨first, offset, used⟩ ⟨second, offset, used⟩) := by
  simp only [step, fetched, Config.step]

theorem step_accept (fetched : machine.program.fetch? address = some .accept) :
    machine.step text ⟨address, offset, used⟩ = .ok .accept := by
  simp only [step, fetched, Config.step]

theorem guardedStep_marked
    (fetched : machine.program.fetch? address = some (.split first second))
    (marked : ⟨address, offset⟩ ∈ marks) :
    machine.guardedStep text marks ⟨address, offset, used⟩ = .ok .fail :=
  guardedStep_eq_fail_iff.mpr (.inr ⟨⟨_, _, step_split fetched⟩, marked⟩)

theorem guardedStep_unmarked
    (fetched : machine.program.fetch? address = some (.split first second))
    (unmarked : ⟨address, offset⟩ ∉ marks) :
    machine.guardedStep text marks ⟨address, offset, used⟩ =
      .ok (.fork ⟨first, offset, used⟩ ⟨second, offset, used⟩) :=
  guardedStep_eq_fork_iff.mpr ⟨step_split fetched, unmarked⟩

theorem guardedStep_jump
    (fetched : machine.program.fetch? address = some (.jump target)) :
    machine.guardedStep text marks ⟨address, offset, used⟩ =
      .ok (.advance ⟨target, offset, used⟩) :=
  guardedStep_eq_advance_iff.mpr (step_jump fetched)

end Control

/-! ## Runs without faults -/

theorem Roomy.step_ne_error (roomy : machine.Roomy text) {thread : Thread}
    (within : thread.Within text) {instruction : Instruction}
    (fetched : machine.program.fetch? thread.pc = some instruction) :
    ∃ result, machine.step text thread = .ok result := by
  obtain ⟨address, offset, used⟩ := thread
  obtain ⟨offset, rfl⟩ := Int.eq_ofNat_of_zero_le within.nonneg
  cases instruction with
  | literal symbol =>
      rw [roomy.step_literal fetched]
      split <;> exact ⟨_, rfl⟩
  | any =>
      rw [roomy.step_any fetched]
      split <;> exact ⟨_, rfl⟩
  | head =>
      rw [roomy.step_head fetched]
      split <;> exact ⟨_, rfl⟩
  | matchEnd =>
      rw [step_matchEnd fetched]
      split <;> exact ⟨_, rfl⟩
  | jump target => exact ⟨_, step_jump fetched⟩
  | split first second => exact ⟨_, step_split fetched⟩
  | accept => exact ⟨_, step_accept fetched⟩

theorem HasLeaves.noFault (roomy : machine.Roomy text) (closed : machine.program.Closed)
    {marks : Marks} {thread : Thread} {leaves : List Leaf}
    (explored : machine.HasLeaves text marks thread leaves) (within : thread.Within text)
    (inside : (machine.program.fetch? thread.pc).isSome) :
    ∀ fault, .faults fault ∉ leaves := by
  induction explored with
  | @fault marks thread fault step =>
      obtain ⟨instruction, fetched⟩ := Option.isSome_iff_exists.mp inside
      obtain ⟨result, ok⟩ := roomy.step_ne_error within fetched
      rw [guardedStep_eq_error_iff, ok] at step
      cases step
  | fail step => simp
  | accept step => simp
  | advance step _ ih =>
      have plain := guardedStep_eq_advance_iff.mp step
      exact ih (within_advance within plain) (closed.flows (flows_of_advance plain))
  | fork step _ _ ihOne ihOther =>
      have plain := (guardedStep_eq_fork_iff.mp step).1
      have one := ihOne (within_fork within plain (.inl rfl))
        (closed.flows (flows_of_fork plain (.inl rfl)))
      have other := ihOther (within_fork within plain (.inr rfl))
        (closed.flows (flows_of_fork plain (.inr rfl)))
      intro fault mem
      exact (List.mem_append.mp mem).elim (one fault) (other fault)

/-- Where the limits have room a closed program without idle cycles has a verdict. -/
theorem run_eq_ok (roomy : machine.Roomy text) (closed : machine.program.Closed)
    (acyclic : machine.program.NoIdleCycle)
    (shallow : machine.nesting text.size ≤ machine.config.maxDepth) (strategy : Strategy) :
    ∃ verdict, machine.run strategy text = .ok verdict := by
  obtain ⟨leaves, explored, depth, breadth⟩ := run_leaves acyclic shallow
  have noFault := explored.noFault roomy closed (Thread.within_start text) closed.start
  cases strategy with
  | depthFirst =>
      obtain ⟨verdict, merged⟩ := Leaf.merged_of_noFault noFault
      exact ⟨verdict, depth.trans merged⟩
  | breadthFirst =>
      rcases Leaf.first_of_noFault noFault with ⟨none, -⟩ | ⟨flag, decided, -⟩
      · exact ⟨_, breadth.trans none⟩
      · exact ⟨_, breadth.trans decided⟩

end Machine

end PatternMachine

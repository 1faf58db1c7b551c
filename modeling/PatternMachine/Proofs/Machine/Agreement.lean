import PatternMachine.Proofs.Machine.Lines

/-!
# The strategies on lines

Both strategies search a line for the same accepting paths, but they differ in what they note of
the start anchor: a depth-first run requires it only if all its matches do, a breadth-first run
has the note of the first match. So a breadth-first search finds nothing that a depth-first search
misses, and without start anchors in the program the two find the same.
-/

namespace PatternMachine

namespace Machine

variable {machine : Machine} {text line : Array Symbol} {thread next : Thread}
  {breadth depth : Verdict}

/-! ## Programs without start anchors -/

theorem mem_code_of_fetch? {program : Program} {address : Int} {instruction : Instruction}
    (fetched : program.fetch? address = some instruction) : instruction ∈ program.code := by
  obtain ⟨index, -, found⟩ := Program.fetch?_eq_some_iff.mp fetched
  exact Array.mem_of_getElem? found

section Headless

variable (headless : Instruction.head ∉ machine.program.code)
include headless

theorem Moves.headUsed_eq (move : machine.Moves text thread next) :
    next.headUsed = thread.headUsed := by
  cases move with
  | advance step =>
      obtain ⟨instruction, fetched, effect⟩ := fetch?_of_step step
      cases effect with
      | consume => rfl
      | head start => exact absurd (mem_code_of_fetch? fetched) headless
      | jump target => rfl
  | fork step chosen => exact headUsed_of_fork step chosen

theorem headUsed_of_reaches (reaches : machine.Reaches text thread) : thread.headUsed = false := by
  induction reaches with
  | refl => rfl
  | tail _ move ih => exact (move.headUsed_eq headless).trans ih

theorem flag_of_accepts {flag : Bool} (accepts : machine.Accepts text ∅ {} flag) :
    flag = false := by
  obtain ⟨final, reaches, -, rfl⟩ := accepts_start_iff.mp accepts
  exact headUsed_of_reaches headless reaches

end Headless

/-! ## Single runs -/

section Runs

variable (breadthOk : machine.run .breadthFirst text = .ok breadth)
  (depthOk : machine.run .depthFirst text = .ok depth)
include breadthOk depthOk

/-- A breadth-first verdict that holds at an offset has found a path that counts there. -/
theorem depth_holdsAt_of_breadth {start : Nat} (holds : breadth.holdsAt start = true) :
    depth.holdsAt start = true := by
  obtain ⟨leaves, explored, merged⟩ := runDepth_eq_ok depthOk
  obtain ⟨-, accepts⟩ := runBreadth_verdict breadthOk
  simp only [Verdict.holdsAt, Bool.and_eq_true, Bool.or_eq_true, Bool.not_eq_true',
    beq_iff_eq] at holds
  exact (explored.holdsAt_iff merged start).mpr ⟨_, accepts holds.1, holds.2.symm⟩

/-- Without start anchors it holds wherever the depth-first verdict does. -/
theorem breadth_holdsAt_of_depth (headless : Instruction.head ∉ machine.program.code)
    {start : Nat} (holds : depth.holdsAt start = true) : breadth.holdsAt start = true := by
  obtain ⟨leaves, explored, merged⟩ := runDepth_eq_ok depthOk
  obtain ⟨matched, accepts⟩ := runBreadth_verdict breadthOk
  obtain ⟨flag, path, -⟩ := (explored.holdsAt_iff merged start).mp holds
  have hit : breadth.matched = true := matched.mpr ⟨flag, path⟩
  simp [Verdict.holdsAt, hit, flag_of_accepts headless (accepts hit)]

end Runs

/-! ## Lines -/

section Lines

variable {breadth depth : Bool}
  (breadthOk : (machine.matchLine .breadthFirst line).value = .ok breadth)
  (depthOk : (machine.matchLine .depthFirst line).value = .ok depth)
include breadthOk depthOk

theorem matchLine_depth_of_breadth (hit : breadth = true) : depth = true := by
  obtain ⟨offset, mem, verdict, run, holds⟩ := (searchAt_eq_ok breadthOk).1 hit
  refine Bool.eq_true_of_not_eq_false fun miss => ?_
  -- A search without a match has run at every offset, so both strategies have run at this one.
  obtain ⟨other, otherRun, fails⟩ := (searchAt_eq_ok depthOk).2 miss offset mem
  rw [depth_holdsAt_of_breadth run otherRun holds] at fails
  cases fails

theorem matchLine_eq_of_headless (headless : Instruction.head ∉ machine.program.code) :
    breadth = depth := by
  refine Bool.eq_iff_iff.mpr ⟨matchLine_depth_of_breadth breadthOk depthOk, fun hit => ?_⟩
  obtain ⟨offset, mem, verdict, run, holds⟩ := (searchAt_eq_ok depthOk).1 hit
  refine Bool.eq_true_of_not_eq_false fun miss => ?_
  obtain ⟨other, otherRun, fails⟩ := (searchAt_eq_ok breadthOk).2 miss offset mem
  rw [breadth_holdsAt_of_depth otherRun run headless holds] at fails
  cases fails

end Lines

end Machine

end PatternMachine

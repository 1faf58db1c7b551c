import PatternMachine.Proofs.Program.Region

/-!
# Well-formed programs

The code of an alternative or of a repetition is a block. Its own split and jump have their
targets filled in, and all targets in it are addresses of the block or the one just behind it. No
split or jump of a program stands outside the blocks of its pattern. Control goes forward or back
to a split, so that every cycle of control comes through a split.
-/

namespace PatternMachine

/-- A tree whose code has targets, and the address of its code. -/
structure CodeBlock where
  node : Pattern
  start : Int

namespace CodeBlock

def stop (block : CodeBlock) : Int :=
  block.start + block.node.width

/-- The addresses of the split and of the jump that belong to the block and to none inside it. -/
def own (block : CodeBlock) : List Int :=
  match block.node with
  | .alternative first _ => [block.start, block.start + first.width + 1]
  | .repetition .oneOrMore body => [block.start + body.width]
  | .repetition .zeroOrMore body => [block.start, block.start + body.width + 1]
  | .repetition .zeroOrOne _ => [block.start]
  | _ => []

end CodeBlock

namespace Pattern

mutual

/-- The alternatives and the bounded repetitions in a tree whose code starts at an address. -/
def blocks (start : Int) : Pattern → List CodeBlock
  | .sequence items => blocksAll start items
  | .alternative first second =>
      ⟨.alternative first second, start⟩ ::
        (first.blocks (start + 1) ++ second.blocks (start + first.width + 2))
  | .repetition .oneOrMore body => ⟨.repetition .oneOrMore body, start⟩ :: body.blocks start
  | .repetition .zeroOrMore body =>
      ⟨.repetition .zeroOrMore body, start⟩ :: body.blocks (start + 1)
  | .repetition .zeroOrOne body => ⟨.repetition .zeroOrOne body, start⟩ :: body.blocks (start + 1)
  | _ => []

def blocksAll (start : Int) : List Pattern → List CodeBlock
  | [] => []
  | item :: rest => item.blocks start ++ blocksAll (start + item.width) rest

end

theorem accept_not_mem_code (start : Nat) (pattern : Pattern) :
    Instruction.accept ∉ pattern.code start := by
  induction pattern using byItems generalizing start with
  | literal symbol => simp [code]
  | wildcard => simp [code]
  | lineStart => simp [code]
  | lineEnd => simp [code]
  | nil => simp [code, codeAll]
  | cons item rest ihItem ihRest => simp [code_cons, ihItem, ihRest]
  | alternative first second ihFirst ihSecond => simp [code, ihFirst, ihSecond]
  | repetition quantifier body ih => cases quantifier <;> simp [code, ih]

end Pattern

namespace Program

variable {program : Program} {pattern : Pattern} {a b : Int}

/-- Control can go from the instruction at `a` to the address `b`, and it is no split. -/
def FlowsUnsplit (program : Program) (a b : Int) : Prop :=
  program.Flows a b ∧ ∀ one other, program.fetch? a ≠ some (.split one other)

/-- An instruction with targets at the address belongs to one of the blocks. -/
def Owned (program : Program) (blocks : List CodeBlock) (address : Int) : Prop :=
  ∀ instruction, program.fetch? address = some instruction → instruction.targets ≠ [] →
    ∃ block ∈ blocks, address ∈ block.own

/-- The program of a pattern with all its targets in place. -/
structure WellFormed (program : Program) (pattern : Pattern) : Prop where
  valid : program.isValid = true
  /-- The program accepts at its last instruction and nowhere else. -/
  accepts : ∃ front, program.code.toList = front ++ [.accept] ∧ .accept ∉ front
  /-- The instructions of every block are those of its node, with the targets filled in. -/
  filled : ∀ block ∈ pattern.blocks 0, program.Holds block.node block.start block.stop
  /-- The targets in a block lie between its start and the address just behind it. -/
  within : ∀ block ∈ pattern.blocks 0, ∀ address instruction, block.start ≤ address →
    address < block.stop → program.fetch? address = some instruction →
    ∀ target ∈ instruction.targets, block.start ≤ target ∧ target ≤ block.stop
  /-- Every split and every jump belongs to a block. -/
  owned : ∀ address, program.Owned (pattern.blocks 0) address
  /-- Every cycle of control comes through a split. -/
  cycles : ∀ address, ¬ Relation.TransGen program.FlowsUnsplit address address

theorem mem_successors_of_mem_targets {instruction : Instruction} {target address : Int}
    (mem : target ∈ instruction.targets) : target ∈ instruction.successors address := by
  cases instruction <;> first | exact mem | exact absurd mem List.not_mem_nil

namespace Owned

variable {blocks others : List CodeBlock} {address : Int}

theorem of_no_targets {instruction : Instruction}
    (fetched : program.fetch? address = some instruction) (none : instruction.targets = []) :
    program.Owned blocks address := by
  intro other same targets
  obtain rfl := Option.some.inj (fetched.symm.trans same)
  exact absurd none targets

theorem of_mem {block : CodeBlock} (mem : block ∈ blocks) (own : address ∈ block.own) :
    program.Owned blocks address :=
  fun _ _ _ => ⟨block, mem, own⟩

theorem mono (owned : program.Owned blocks address) (subset : blocks ⊆ others) :
    program.Owned others address := by
  intro instruction fetched targets
  obtain ⟨block, mem, own⟩ := owned instruction fetched targets
  exact ⟨block, subset mem, own⟩

end Owned

namespace Holds

theorem stop_eq (holds : program.Holds pattern a b) : b = a + pattern.width := by
  induction holds with
  | literal | wildcard | lineStart | lineEnd => rfl
  | nil => simp [Pattern.width, Pattern.widthAll]
  | cons _ _ ihOne ihOthers =>
      rw [Pattern.width_cons]
      omega
  | alternative _ _ _ _ ihOne ihOther =>
      rw [Pattern.width]
      omega
  | oneOrMore _ _ ih | zeroOrMore _ _ _ ih | zeroOrOne _ _ ih =>
      rw [Pattern.width]
      omega

theorem block (holds : program.Holds pattern a b) :
    program.Holds pattern a (CodeBlock.mk pattern a).stop := by
  have stop := holds.stop_eq
  subst stop
  exact holds

theorem blocks (holds : program.Holds pattern a b) :
    ∀ block ∈ pattern.blocks a, program.Holds block.node block.start block.stop := by
  induction holds with
  | literal | wildcard | lineStart | lineEnd => simp [Pattern.blocks]
  | nil => simp [Pattern.blocks, Pattern.blocksAll]
  | cons one others ihOne ihOthers =>
      rw [one.stop_eq] at ihOthers
      exact List.forall_mem_append.mpr ⟨ihOne, ihOthers⟩
  | @alternative first second a b c split one exit other ihOne ihOther =>
      have next : b + 1 = a + first.width + 2 := by
        have stop := one.stop_eq
        omega
      rw [next] at ihOther
      exact List.forall_mem_cons.mpr ⟨(Holds.alternative split one exit other).block,
        List.forall_mem_append.mpr ⟨ihOne, ihOther⟩⟩
  | oneOrMore once split ih =>
      exact List.forall_mem_cons.mpr ⟨(Holds.oneOrMore once split).block, ih⟩
  | zeroOrMore split once back ih =>
      exact List.forall_mem_cons.mpr ⟨(Holds.zeroOrMore split once back).block, ih⟩
  | zeroOrOne split once ih =>
      exact List.forall_mem_cons.mpr ⟨(Holds.zeroOrOne split once).block, ih⟩

/-- In a region the instructions with targets belong to blocks. -/
theorem owned (holds : program.Holds pattern a b) :
    Between (program.Owned (pattern.blocks a)) a b := by
  induction holds with
  | literal fetched | wildcard fetched | lineStart fetched | lineEnd fetched =>
      exact .single (.of_no_targets fetched rfl)
  | nil => exact .empty
  | cons one others ihOne ihOthers =>
      have next := one.stop_eq
      subst next
      exact .append (ihOne.imp fun _ _ _ owned => owned.mono (List.subset_append_left _ _))
        (ihOthers.imp fun _ _ _ owned => owned.mono (List.subset_append_right _ _))
  | @alternative first second a b c split one exit other ihOne ihOther =>
      have stop : b = a + first.width + 1 := by
        have stop := one.stop_eq
        omega
      have next : b + 1 = a + first.width + 2 := by omega
      have inside : ∀ block ∈ first.blocks (a + 1) ++ second.blocks (b + 1),
          block ∈ (Pattern.alternative first second).blocks a := by
        rw [next]
        exact fun _ => List.mem_cons_of_mem _
      refine .cons (.of_mem List.mem_cons_self List.mem_cons_self) ?_
      refine .append (ihOne.imp fun _ _ _ owned => owned.mono fun block mem =>
        inside block (List.mem_append_left _ mem)) ?_
      refine .cons (.of_mem List.mem_cons_self (by simp [CodeBlock.own, stop])) ?_
      exact ihOther.imp fun _ _ _ owned => owned.mono fun block mem =>
        inside block (List.mem_append_right _ mem)
  | oneOrMore once split ih =>
      refine .append (ih.imp fun _ _ _ owned => owned.mono (List.subset_cons_self _ _)) ?_
      exact .single (.of_mem List.mem_cons_self (by simp [CodeBlock.own, once.stop_eq]))
  | @zeroOrMore body a b split once back ih =>
      have stop : b = a + body.width + 1 := by
        have stop := once.stop_eq
        omega
      refine .cons (.of_mem List.mem_cons_self List.mem_cons_self) ?_
      refine .append (ih.imp fun _ _ _ owned => owned.mono (List.subset_cons_self _ _)) ?_
      exact .single (.of_mem List.mem_cons_self (by simp [CodeBlock.own, stop]))
  | zeroOrOne split once ih =>
      refine .cons (.of_mem List.mem_cons_self List.mem_cons_self) ?_
      exact ih.imp fun _ _ _ owned => owned.mono (List.subset_cons_self _ _)

end Holds

namespace Carries

variable {stop : Int}

/-- Without a split control goes forward, or it lands on a split. -/
theorem forward_of_flowsUnsplit (carries : program.Carries pattern stop)
    (flows : program.FlowsUnsplit a b) :
    a < b ∨ ∃ one other, program.fetch? b = some (.split one other) := by
  obtain ⟨⟨instruction, fetched, mem⟩, unsplit⟩ := flows
  cases instruction with
  | literal symbol | any | head =>
      obtain rfl := List.mem_singleton.mp mem
      exact .inl (Int.lt_succ a)
  | matchEnd | accept => exact absurd mem List.not_mem_nil
  | jump target =>
      obtain rfl := List.mem_singleton.mp mem
      obtain ⟨above, below⟩ := bounds_of_fetch? fetched
      have size := carries.size
      obtain ⟨_, same, -, jumps⟩ := carries.stays above (by omega)
      exact jumps b (Option.some.inj (same.symm.trans fetched))
  | split one other => exact absurd fetched (unsplit one other)

theorem splits_cycles (carries : program.Carries pattern stop) (address : Int) :
    ¬ Relation.TransGen program.FlowsUnsplit address address := by
  have forward (a b : Int) (flows : program.FlowsUnsplit a b) :
      a < b ∨ ∃ one other, program.fetch? b = some (.split one other) :=
    carries.forward_of_flowsUnsplit flows
  refine no_cycle_of_forward forward (fun a b flows => ?_) address
  rintro ⟨one, other, split⟩
  exact flows.2 one other split

theorem isValid (carries : program.Carries pattern stop) : program.isValid = true := by
  refine Array.all_eq_true'.mpr fun instruction mem => List.all_eq_true.mpr fun target named => ?_
  obtain ⟨index, inside, rfl⟩ := Array.mem_iff_getElem.mp mem
  have fetched : program.fetch? index = some program.code[index] :=
    fetch?_eq_some_iff.mpr ⟨index, rfl, Array.getElem?_eq_getElem inside⟩
  obtain ⟨above, below⟩ := bounds_of_fetch? fetched
  have size := carries.size
  obtain ⟨_, same, successors, -⟩ := carries.stays above (by omega)
  obtain rfl := Option.some.inj (fetched.symm.trans same)
  obtain ⟨left, right⟩ := successors target (mem_successors_of_mem_targets named)
  simp only [inBounds, Bool.and_eq_true, decide_eq_true_eq]
  omega

end Carries

theorem wellFormed_program (bounded : pattern.Bounded) : pattern.program.WellFormed pattern where
  valid := (carries_program bounded).isValid
  accepts := ⟨pattern.code 0, rfl, pattern.accept_not_mem_code 0⟩
  filled := (carries_program bounded).holds.blocks
  within := by
    intro block mem address instruction first last fetched target named
    have held := (carries_program bounded).holds.blocks block mem
    obtain ⟨_, same, successors, -⟩ := held.stays address first last
    obtain rfl := Option.some.inj (fetched.symm.trans same)
    exact successors target (mem_successors_of_mem_targets named)
  owned := by
    intro address
    have carries := carries_program bounded
    have size := carries.size
    by_cases inside : 0 ≤ address ∧ address < pattern.width
    · exact carries.holds.owned address inside.1 inside.2
    · intro instruction fetched targets
      obtain ⟨above, below⟩ := bounds_of_fetch? fetched
      obtain rfl : address = pattern.width := by omega
      exact (Owned.of_no_targets carries.accepts rfl) instruction fetched targets
  cycles := (carries_program bounded).splits_cycles

end Program

end PatternMachine

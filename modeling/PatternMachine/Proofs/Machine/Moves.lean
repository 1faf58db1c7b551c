import Mathlib.Logic.Relation
import PatternMachine.Machine.Marks

/-!
# Moves of a thread

What one step can do to a thread, the paths that steps allow when nothing is marked, and accepting
paths that keep off a set of marks. A note that the start anchor was relied on is only handed on:
it changes neither the path of a thread nor where the path is cut.
-/

namespace PatternMachine

variable {machine : Machine} {text : Array Symbol} {marks : Marks}

namespace Thread

/-- The thread, noted to rely on the start anchor if `flag` holds. -/
def relying (flag : Bool) (thread : Thread) : Thread :=
  { thread with headUsed := thread.headUsed || flag }

@[simp]
theorem place_relying (flag : Bool) (thread : Thread) :
    (thread.relying flag).place = thread.place :=
  rfl

@[simp]
theorem headUsed_relying (flag : Bool) (thread : Thread) :
    (thread.relying flag).headUsed = (thread.headUsed || flag) :=
  rfl

/-- Of two threads at one place, the one that relies on more is the other with that noted. -/
theorem eq_relying {thread other : Thread} (place : other.place = thread.place)
    (more : thread.headUsed = true → other.headUsed = true) :
    other = thread.relying other.headUsed := by
  obtain ⟨pc, offset, headUsed⟩ := thread
  obtain ⟨pc', offset', headUsed'⟩ := other
  simp only [Thread.place, Place.mk.injEq] at place
  obtain ⟨rfl, rfl⟩ := place
  cases headUsed <;> simp_all [relying]

end Thread

def Step.relying (flag : Bool) : Step → Step
  | .advance next => .advance (next.relying flag)
  | .fail => .fail
  | .accept => .accept
  | .fork first second => .fork (first.relying flag) (second.relying flag)

namespace Marks

theorem mem_insert {place other : Place} :
    other ∈ marks.insert place ↔ other = place ∨ other ∈ marks := by
  rw [Std.ExtTreeSet.mem_insert, Std.LawfulEqCmp.compare_eq_iff_eq, eq_comm]

theorem mem_insert_self {place : Place} : place ∈ marks.insert place :=
  mem_insert.mpr (.inl rfl)

theorem size_insert_of_notMem {place : Place} (unmarked : place ∉ marks) :
    (marks.insert place).size = marks.size + 1 := by
  rw [Std.ExtTreeSet.size_insert, if_neg (by simpa using unmarked)]

theorem mem_insert_of_ne {address address' offset offset' : Int} (apart : address' ≠ address) :
    ⟨address', offset'⟩ ∈ marks.insert ⟨address, offset⟩ ↔ ⟨address', offset'⟩ ∈ marks := by
  rw [mem_insert]
  simp [apart]

end Marks

namespace Instruction

/-- Where control can go from an instruction at an address. -/
def successors (address : Int) : Instruction → List Int
  | .literal _ | .any | .head => [address + 1]
  | .jump target => [target]
  | .split first second => [first, second]
  | .matchEnd | .accept => []

end Instruction

namespace Program

def Flows (program : Program) (a b : Int) : Prop :=
  ∃ instruction, program.fetch? a = some instruction ∧ b ∈ instruction.successors a

/-- The instruction at `a` passes control to `b` without a split and without consuming. -/
def Idles (program : Program) (a b : Int) : Prop :=
  program.fetch? a = some (.jump b) ∨ (program.fetch? a = some .head ∧ b = a + 1)

end Program

/-- What an instruction can do to a thread. -/
inductive Effect (text : Array Symbol) (thread : Thread) :
    Instruction → Except Fault Step → Prop where
  | fault {instruction : Instruction} {fault : Fault} (here : fault.address = thread.pc)
      (reason : fault.reason = .addressOverflow ∨ fault.reason = .offsetOverflow ∨
        fault.reason = .noSymbol) : Effect text thread instruction (.error fault)
  | fail {instruction : Instruction} : Effect text thread instruction (.ok .fail)
  | consume {instruction : Instruction} (inside : thread.offset < text.size)
      (follows : instruction.successors thread.pc = [thread.pc + 1]) :
      Effect text thread instruction
        (.ok (.advance ⟨thread.pc + 1, thread.offset + 1, thread.headUsed⟩))
  | head (start : thread.offset = 0) :
      Effect text thread .head (.ok (.advance ⟨thread.pc + 1, thread.offset, true⟩))
  | matchEnd (ended : text.size ≤ thread.offset) : Effect text thread .matchEnd (.ok .accept)
  | jump (target : Int) :
      Effect text thread (.jump target) (.ok (.advance { thread with pc := target }))
  | split (first second : Int) :
      Effect text thread (.split first second)
        (.ok (.fork { thread with pc := first } { thread with pc := second }))
  | accept : Effect text thread .accept (.ok .accept)

namespace Config

theorem nextAddress_eq_ok {config : Config} {thread : Thread} {pc : Int}
    (advanced : config.nextAddress thread = .ok pc) : pc = thread.pc + 1 := by
  unfold nextAddress checkedAdd at advanced
  split at advanced <;> cases advanced
  rfl

theorem nextOffset_eq_ok {config : Config} {thread : Thread} {offset : Int}
    (advanced : config.nextOffset thread = .ok offset) : offset = thread.offset + 1 := by
  unfold nextOffset checkedAdd at advanced
  split at advanced <;> cases advanced
  rfl

theorem consume_eq_ok {config : Config} {thread : Thread} {step : Step}
    (consumed : config.consume thread = .ok step) :
    step = .advance ⟨thread.pc + 1, thread.offset + 1, thread.headUsed⟩ := by
  unfold consume at consumed
  split at consumed
  · cases consumed
  · rename_i pc advanced
    split at consumed
    · cases consumed
    · rename_i offset moved
      cases consumed
      rw [nextAddress_eq_ok advanced, nextOffset_eq_ok moved]

theorem nextAddress_eq_error {config : Config} {thread : Thread} {fault : Fault}
    (overflow : config.nextAddress thread = .error fault) :
    fault = ⟨.addressOverflow, thread.pc⟩ := by
  unfold nextAddress checkedAdd at overflow
  split at overflow <;> cases overflow
  rfl

theorem nextOffset_eq_error {config : Config} {thread : Thread} {fault : Fault}
    (overflow : config.nextOffset thread = .error fault) :
    fault = ⟨.offsetOverflow, thread.pc⟩ := by
  unfold nextOffset checkedAdd at overflow
  split at overflow <;> cases overflow
  rfl

theorem consume_eq_error {config : Config} {thread : Thread} {fault : Fault}
    (consumed : config.consume thread = .error fault) :
    fault.address = thread.pc ∧
      (fault.reason = .addressOverflow ∨ fault.reason = .offsetOverflow) := by
  unfold consume at consumed
  split at consumed
  · rename_i overflow
    cases consumed
    rw [nextAddress_eq_error overflow]
    exact ⟨rfl, .inl rfl⟩
  · split at consumed
    · rename_i overflow
      cases consumed
      rw [nextOffset_eq_error overflow]
      exact ⟨rfl, .inr rfl⟩
    · cases consumed

theorem step_effect (config : Config) (text : Array Symbol) (instruction : Instruction)
    (thread : Thread) : Effect text thread instruction (config.step text instruction thread) := by
  have consumed {instruction : Instruction} (inside : thread.offset < text.size)
      (follows : instruction.successors thread.pc = [thread.pc + 1]) :
      Effect text thread instruction (config.consume thread) := by
    cases consumed : config.consume thread with
    | error fault =>
        obtain ⟨here, reason⟩ := consume_eq_error consumed
        exact .fault here (reason.imp id .inl)
    | ok step => exact consume_eq_ok consumed ▸ .consume inside follows
  cases instruction with
  | literal symbol =>
      simp only [step]
      split
      · rename_i inside
        split
        · exact .fault rfl (.inr (.inr rfl))
        · split
          · exact consumed inside rfl
          · exact .fail
      · exact .fail
  | any =>
      simp only [step]
      split
      · rename_i inside
        exact consumed inside rfl
      · exact .fail
  | head =>
      simp only [step]
      split
      · rename_i start
        split
        · rename_i overflow
          rw [nextAddress_eq_error overflow]
          exact .fault rfl (.inl rfl)
        · rename_i pc advanced
          exact nextAddress_eq_ok advanced ▸ .head start
      · exact .fail
  | matchEnd =>
      simp only [step]
      split
      · rename_i ended
        exact .matchEnd ended
      · exact .fail
  | jump target => exact .jump target
  | split first second => exact .split first second
  | accept => exact .accept

theorem consume_relying (config : Config) (flag : Bool) (thread : Thread) :
    config.consume (thread.relying flag) = (config.consume thread).map (Step.relying flag) := by
  unfold consume
  rw [show config.nextAddress (thread.relying flag) = config.nextAddress thread from rfl,
    show config.nextOffset (thread.relying flag) = config.nextOffset thread from rfl]
  cases config.nextAddress thread with
  | error fault => rfl
  | ok pc =>
      cases config.nextOffset thread with
      | error fault => rfl
      | ok offset => rfl

theorem step_relying (config : Config) (text : Array Symbol) (instruction : Instruction)
    (flag : Bool) (thread : Thread) :
    config.step text instruction (thread.relying flag) =
      (config.step text instruction thread).map (Step.relying flag) := by
  have offset : (thread.relying flag).offset = thread.offset := rfl
  cases instruction with
  | literal symbol =>
      simp only [step, offset, consume_relying]
      split
      · cases symbolAt? text thread.offset with
        | none => rfl
        | some found => by_cases same : found = symbol <;> simp [same, Except.map, Step.relying]
      · rfl
  | any =>
      simp only [step, offset, consume_relying]
      split <;> rfl
  | head =>
      simp only [step, offset]
      rw [show config.nextAddress (thread.relying flag) = config.nextAddress thread from rfl]
      split
      · cases config.nextAddress thread with
        | error fault => rfl
        | ok pc => simp [Except.map, Step.relying, Thread.relying]
      · rfl
  | matchEnd =>
      simp only [step, offset]
      split <;> rfl
  | jump target => rfl
  | split first second => rfl
  | accept => rfl

end Config

namespace Machine

/-! ## Single steps -/

theorem step_relying (machine : Machine) (text : Array Symbol) (flag : Bool) (thread : Thread) :
    machine.step text (thread.relying flag) =
      (machine.step text thread).map (Step.relying flag) := by
  unfold step
  rw [show (thread.relying flag).pc = thread.pc from rfl]
  cases machine.program.fetch? thread.pc with
  | none => rfl
  | some instruction => exact machine.config.step_relying text instruction flag thread

theorem guardedStep_relying (machine : Machine) (text : Array Symbol) (marks : Marks)
    (flag : Bool) (thread : Thread) :
    machine.guardedStep text marks (thread.relying flag) =
      (machine.guardedStep text marks thread).map (Step.relying flag) := by
  unfold guardedStep
  rw [step_relying, Thread.place_relying]
  cases machine.step text thread with
  | error fault => rfl
  | ok step =>
      cases step with
      | fork first second =>
          by_cases marked : marks.contains thread.place = true <;>
            simp [marked, Except.map, Step.relying]
      | _ => rfl

theorem guardedStep_relying_eq_ok {flag : Bool} {thread : Thread} {step : Step}
    (relying : machine.guardedStep text marks (thread.relying flag) = .ok step) :
    ∃ lower, machine.guardedStep text marks thread = .ok lower ∧ lower.relying flag = step := by
  rw [guardedStep_relying] at relying
  cases guarded : machine.guardedStep text marks thread with
  | error fault =>
      rw [guarded] at relying
      cases relying
  | ok lower =>
      rw [guarded] at relying
      exact ⟨lower, rfl, Except.ok.inj relying⟩

theorem guardedStep_of_not_mem {thread : Thread} (unmarked : thread.place ∉ marks) :
    machine.guardedStep text marks thread = machine.step text thread := by
  unfold guardedStep
  split
  · rename_i first second step
    simp [step, unmarked]
  · rfl

/-- The guard turns some forks into failures and touches no other step. -/
theorem guardedStep_eq_iff {thread : Thread} {result : Except Fault Step}
    (notFail : result ≠ .ok .fail) (notFork : ∀ first second, result ≠ .ok (.fork first second)) :
    machine.guardedStep text marks thread = result ↔ machine.step text thread = result := by
  unfold guardedStep
  split
  · rename_i first second step
    by_cases marked : thread.place ∈ marks
    · simp [marked, step, Ne.symm notFail, Ne.symm (notFork first second)]
    · simp [marked, step]
  · rfl

theorem guardedStep_eq_error_iff {thread : Thread} {fault : Fault} :
    machine.guardedStep text marks thread = .error fault ↔
      machine.step text thread = .error fault :=
  guardedStep_eq_iff (by simp) (by simp)

theorem guardedStep_eq_accept_iff {thread : Thread} :
    machine.guardedStep text marks thread = .ok .accept ↔
      machine.step text thread = .ok .accept :=
  guardedStep_eq_iff (by simp) (by simp)

theorem guardedStep_eq_advance_iff {thread next : Thread} :
    machine.guardedStep text marks thread = .ok (.advance next) ↔
      machine.step text thread = .ok (.advance next) :=
  guardedStep_eq_iff (by simp) (by simp)

theorem guardedStep_eq_fork_iff {thread first second : Thread} :
    machine.guardedStep text marks thread = .ok (.fork first second) ↔
      machine.step text thread = .ok (.fork first second) ∧ thread.place ∉ marks := by
  by_cases marked : thread.place ∈ marks
  · simp only [guardedStep, Std.ExtTreeSet.contains_iff_mem, marked]
    split <;> simp_all
  · rw [guardedStep_of_not_mem marked]
    simp [marked]

theorem guardedStep_eq_fail_iff {thread : Thread} :
    machine.guardedStep text marks thread = .ok .fail ↔
      machine.step text thread = .ok .fail ∨
        ((∃ first second, machine.step text thread = .ok (.fork first second)) ∧
          thread.place ∈ marks) := by
  by_cases marked : thread.place ∈ marks
  · simp only [guardedStep, Std.ExtTreeSet.contains_iff_mem, marked]
    split <;> simp_all
  · rw [guardedStep_of_not_mem marked]
    simp [marked]

theorem step_effect {thread : Thread} {instruction : Instruction}
    (fetched : machine.program.fetch? thread.pc = some instruction) :
    Effect text thread instruction (machine.step text thread) := by
  rw [step, fetched]
  exact machine.config.step_effect text instruction thread

theorem fetch?_of_step {thread : Thread} {result : Step}
    (step : machine.step text thread = .ok result) :
    ∃ instruction, machine.program.fetch? thread.pc = some instruction ∧
      Effect text thread instruction (.ok result) := by
  cases fetched : machine.program.fetch? thread.pc with
  | none => simp [Machine.step, fetched] at step
  | some instruction => exact ⟨instruction, rfl, step ▸ step_effect fetched⟩

theorem step_ne_accept {thread : Thread} {instruction : Instruction} {target : Int}
    (fetched : machine.program.fetch? thread.pc = some instruction)
    (flows : target ∈ instruction.successors thread.pc) :
    machine.step text thread ≠ .ok .accept := by
  intro step
  have effect : Effect text thread instruction (machine.step text thread) := step_effect fetched
  rw [step] at effect
  cases effect <;> simp [Instruction.successors] at flows

theorem fetch?_of_guardedStep {thread : Thread} {result : Step}
    (step : machine.guardedStep text marks thread = .ok result) :
    ∃ instruction, machine.program.fetch? thread.pc = some instruction := by
  cases fetched : machine.program.fetch? thread.pc with
  | none => simp [guardedStep, Machine.step, fetched] at step
  | some instruction => exact ⟨instruction, rfl⟩

/--
A thread advances by consuming one symbol, or it stays at its offset and idles. Only a start
anchor changes the note.
-/
theorem step_eq_advance {thread next : Thread}
    (step : machine.step text thread = .ok (.advance next)) :
    (thread.offset < text.size ∧
        next = ⟨thread.pc + 1, thread.offset + 1, thread.headUsed⟩) ∨
      (machine.program.Idles thread.pc next.pc ∧ next.offset = thread.offset ∧
        (thread.headUsed = true → next.headUsed = true)) := by
  obtain ⟨instruction, fetched, effect⟩ := fetch?_of_step step
  cases effect with
  | consume inside _ => exact .inl ⟨inside, rfl⟩
  | head start => exact .inr ⟨.inr ⟨fetched, rfl⟩, rfl, fun _ => rfl⟩
  | jump target => exact .inr ⟨.inl fetched, rfl, id⟩

theorem headUsed_of_advance {thread next : Thread}
    (step : machine.step text thread = .ok (.advance next))
    (used : thread.headUsed = true) : next.headUsed = true := by
  rcases step_eq_advance step with ⟨-, rfl⟩ | ⟨-, -, more⟩
  · exact used
  · exact more used

theorem flows_of_advance {thread next : Thread}
    (step : machine.step text thread = .ok (.advance next)) :
    machine.program.Flows thread.pc next.pc := by
  obtain ⟨instruction, fetched, effect⟩ := fetch?_of_step step
  cases effect with
  | consume _ follows => exact ⟨instruction, fetched, by simp [follows]⟩
  | head _ => exact ⟨.head, fetched, List.mem_cons_self⟩
  | jump target => exact ⟨.jump target, fetched, List.mem_cons_self⟩

theorem step_eq_fork {thread first second : Thread}
    (step : machine.step text thread = .ok (.fork first second)) :
    machine.program.fetch? thread.pc = some (.split first.pc second.pc) ∧
      first = { thread with pc := first.pc } ∧ second = { thread with pc := second.pc } := by
  obtain ⟨instruction, fetched, effect⟩ := fetch?_of_step step
  cases effect with
  | split one other => exact ⟨fetched, rfl, rfl⟩

theorem flows_of_fork {thread first second side : Thread}
    (step : machine.step text thread = .ok (.fork first second))
    (chosen : side = first ∨ side = second) : machine.program.Flows thread.pc side.pc := by
  refine ⟨_, (step_eq_fork step).1, ?_⟩
  rcases chosen with rfl | rfl
  · exact List.mem_cons_self
  · exact List.mem_cons_of_mem _ List.mem_cons_self

theorem step_eq_error {thread : Thread} {fault : Fault}
    (step : machine.step text thread = .error fault) :
    fault.address = thread.pc ∧ (fault.reason = .invalidAddress ∨
      fault.reason = .addressOverflow ∨ fault.reason = .offsetOverflow ∨
      fault.reason = .noSymbol) := by
  cases fetched : machine.program.fetch? thread.pc with
  | none =>
      simp only [Machine.step, fetched] at step
      cases step
      exact ⟨rfl, .inl rfl⟩
  | some instruction =>
      have effect : Effect text thread instruction (machine.step text thread) :=
        step_effect fetched
      rw [step] at effect
      cases effect with
      | fault here reason => exact ⟨here, .inr reason⟩

theorem headUsed_of_fork {thread first second side : Thread}
    (step : machine.step text thread = .ok (.fork first second))
    (chosen : side = first ∨ side = second) : side.headUsed = thread.headUsed := by
  obtain ⟨-, firstEq, secondEq⟩ := step_eq_fork step
  rcases chosen with rfl | rfl
  · rw [firstEq]
  · rw [secondEq]

theorem offset_of_fork {thread first second side : Thread}
    (step : machine.step text thread = .ok (.fork first second))
    (chosen : side = first ∨ side = second) : side.offset = thread.offset := by
  obtain ⟨-, firstEq, secondEq⟩ := step_eq_fork step
  rcases chosen with rfl | rfl
  · rw [firstEq]
  · rw [secondEq]

/-! ## Paths -/

/-- One step takes the first thread to the second; a fork may go on with either side. -/
inductive Moves (machine : Machine) (text : Array Symbol) : Thread → Thread → Prop where
  | advance {thread next : Thread}
      (step : machine.step text thread = .ok (.advance next)) : Moves machine text thread next
  | fork {thread first second side : Thread}
      (step : machine.step text thread = .ok (.fork first second))
      (chosen : side = first ∨ side = second) : Moves machine text thread side

def Accepting (machine : Machine) (text : Array Symbol) (thread : Thread) : Prop :=
  machine.step text thread = .ok .accept

/-- A path from the thread accepts with the given note and splits at no marked place. -/
inductive Accepts (machine : Machine) (text : Array Symbol) (marks : Marks) :
    Thread → Bool → Prop where
  | accept {thread : Thread} (step : machine.guardedStep text marks thread = .ok .accept) :
      Accepts machine text marks thread thread.headUsed
  | advance {thread next : Thread} {flag : Bool}
      (step : machine.guardedStep text marks thread = .ok (.advance next))
      (path : Accepts machine text marks next flag) : Accepts machine text marks thread flag
  | fork {thread first second side : Thread} {flag : Bool}
      (step : machine.guardedStep text marks thread = .ok (.fork first second))
      (chosen : side = first ∨ side = second)
      (path : Accepts machine text marks side flag) : Accepts machine text marks thread flag

theorem accepts_empty_iff {thread : Thread} {flag : Bool} :
    machine.Accepts text ∅ thread flag ↔
      ∃ final, Relation.ReflTransGen (machine.Moves text) thread final ∧
        machine.Accepting text final ∧ final.headUsed = flag := by
  have unguarded (thread : Thread) :
      machine.guardedStep text ∅ thread = machine.step text thread :=
    guardedStep_of_not_mem (by simp)
  constructor
  · intro path
    induction path with
    | accept step =>
        rw [unguarded] at step
        exact ⟨_, .refl, step, rfl⟩
    | advance step _ ih =>
        rw [unguarded] at step
        obtain ⟨final, moves, accepting⟩ := ih
        exact ⟨final, .head (.advance step) moves, accepting⟩
    | fork step chosen _ ih =>
        rw [unguarded] at step
        obtain ⟨final, moves, accepting⟩ := ih
        exact ⟨final, .head (.fork step chosen) moves, accepting⟩
  · rintro ⟨final, moves, accepting, rfl⟩
    induction moves using Relation.ReflTransGen.head_induction_on with
    | refl => exact .accept (by rwa [unguarded])
    | head move _ ih =>
        cases move with
        | advance step => exact .advance (by rwa [unguarded]) ih
        | fork step chosen => exact .fork (by rwa [unguarded]) chosen ih

/-- An unguarded path from the thread accepts with the given note after a number of moves. -/
inductive AcceptsIn (machine : Machine) (text : Array Symbol) : Nat → Thread → Bool → Prop where
  | accept {thread : Thread} (accepting : machine.Accepting text thread) :
      AcceptsIn machine text 0 thread thread.headUsed
  | move {steps : Nat} {thread next : Thread} {flag : Bool}
      (move : machine.Moves text thread next) (path : AcceptsIn machine text steps next flag) :
      AcceptsIn machine text (steps + 1) thread flag

theorem exists_acceptsIn_iff {thread : Thread} {flag : Bool} :
    (∃ steps, machine.AcceptsIn text steps thread flag) ↔ machine.Accepts text ∅ thread flag := by
  rw [accepts_empty_iff]
  constructor
  · rintro ⟨steps, path⟩
    induction path with
    | accept accepting => exact ⟨_, .refl, accepting, rfl⟩
    | move move _ ih =>
        obtain ⟨final, moves, accepting⟩ := ih
        exact ⟨final, .head move moves, accepting⟩
  · rintro ⟨final, moves, accepting, rfl⟩
    induction moves using Relation.ReflTransGen.head_induction_on with
    | refl => exact ⟨0, .accept accepting⟩
    | head move _ ih =>
        obtain ⟨steps, path⟩ := ih
        exact ⟨steps + 1, .move move path⟩

namespace AcceptsIn

variable {steps : Nat} {thread : Thread} {flag : Bool}

theorem of_accept (path : machine.AcceptsIn text steps thread flag)
    (step : machine.step text thread = .ok .accept) : flag = thread.headUsed := by
  cases path with
  | accept accepting => rfl
  | move move path => cases move <;> simp_all

theorem of_fail (path : machine.AcceptsIn text steps thread flag)
    (step : machine.step text thread = .ok .fail) : False := by
  cases path with
  | accept accepting => simp_all [Accepting]
  | move move path => cases move <;> simp_all

theorem of_advance (path : machine.AcceptsIn text steps thread flag) {next : Thread}
    (step : machine.step text thread = .ok (.advance next)) :
    ∃ fewer < steps, machine.AcceptsIn text fewer next flag := by
  cases path with
  | accept accepting => simp_all [Accepting]
  | @move fewer _ _ _ move path =>
      refine ⟨fewer, Nat.lt_succ_self fewer, ?_⟩
      cases move with
      | advance step' =>
          rw [step] at step'
          cases step'
          exact path
      | fork step' chosen => simp_all

theorem of_fork (path : machine.AcceptsIn text steps thread flag) {first second : Thread}
    (step : machine.step text thread = .ok (.fork first second)) :
    ∃ fewer < steps, machine.AcceptsIn text fewer first flag ∨
      machine.AcceptsIn text fewer second flag := by
  cases path with
  | accept accepting => simp_all [Accepting]
  | @move fewer _ _ _ move path =>
      refine ⟨fewer, Nat.lt_succ_self fewer, ?_⟩
      cases move with
      | advance step' => simp_all
      | fork step' chosen =>
          rw [step] at step'
          cases step'
          rcases chosen with rfl | rfl
          · exact .inl path
          · exact .inr path

end AcceptsIn

namespace Accepts

theorem of_relying {thread : Thread} {flag more : Bool}
    (path : machine.Accepts text marks (thread.relying more) flag) :
    ∃ less, (less = true → flag = true) ∧ machine.Accepts text marks thread less := by
  generalize same : thread.relying more = other at path
  induction path generalizing thread with
  | accept step =>
      subst same
      obtain ⟨lower, lowerStep, lifted⟩ := guardedStep_relying_eq_ok step
      cases lower <;> cases lifted
      exact ⟨thread.headUsed, by simp +contextual, .accept lowerStep⟩
  | advance step _ ih =>
      subst same
      obtain ⟨lower, lowerStep, lifted⟩ := guardedStep_relying_eq_ok step
      cases lower <;> cases lifted
      obtain ⟨less, le, path⟩ := ih rfl
      exact ⟨less, le, .advance lowerStep path⟩
  | fork step chosen _ ih =>
      subst same
      obtain ⟨lower, lowerStep, lifted⟩ := guardedStep_relying_eq_ok step
      cases lower <;> cases lifted
      rcases chosen with rfl | rfl
      · obtain ⟨less, le, path⟩ := ih rfl
        exact ⟨less, le, .fork lowerStep (.inl rfl) path⟩
      · obtain ⟨less, le, path⟩ := ih rfl
        exact ⟨less, le, .fork lowerStep (.inr rfl) path⟩

/--
An accepting path keeps off one more place, or it splits there a last time and keeps off it from
then on.
-/
theorem cut {thread : Thread} {flag : Bool} (path : machine.Accepts text marks thread flag)
    (place : Place) :
    machine.Accepts text (marks.insert place) thread flag ∨
      ∃ last first second side, last.place = place ∧
        machine.step text last = .ok (.fork first second) ∧ (side = first ∨ side = second) ∧
        (thread.headUsed = true → last.headUsed = true) ∧
        machine.Accepts text (marks.insert place) side flag := by
  induction path with
  | accept step =>
      exact .inl (.accept (guardedStep_eq_accept_iff.mpr (guardedStep_eq_accept_iff.mp step)))
  | advance step _ ih =>
      have plain := guardedStep_eq_advance_iff.mp step
      rcases ih with path | ⟨last, first, second, side, here, fork, chosen, more, path⟩
      · exact .inl (.advance (guardedStep_eq_advance_iff.mpr plain) path)
      · exact .inr ⟨last, first, second, side, here, fork, chosen,
          fun used => more (headUsed_of_advance plain used), path⟩
  | @fork thread first second side flag step chosen _ ih =>
      obtain ⟨plain, unmarked⟩ := guardedStep_eq_fork_iff.mp step
      have keeps := headUsed_of_fork plain chosen
      rcases ih with path | ⟨last, first', second', side', here, fork, chosen', more, path⟩
      · by_cases here : thread.place = place
        · exact .inr ⟨thread, first, second, side, here, plain, chosen, id, path⟩
        · have still : thread.place ∉ marks.insert place :=
            fun marked => (Marks.mem_insert.mp marked).elim here unmarked
          exact .inl (.fork (guardedStep_eq_fork_iff.mpr ⟨plain, still⟩) chosen path)
      · exact .inr ⟨last, first', second', side', here, fork, chosen', by rwa [← keeps], path⟩

/--
A thread at a split that accepts need not come back there: some side accepts on a path that keeps
off the place of the split and relies on no more.
-/
theorem leave {thread first second : Thread} {flag : Bool}
    (step : machine.guardedStep text marks thread = .ok (.fork first second))
    (path : machine.Accepts text marks thread flag) :
    ∃ side less, (side = first ∨ side = second) ∧ (less = true → flag = true) ∧
      machine.Accepts text (marks.insert thread.place) side less := by
  cases path with
  | @fork _ _ _ side _ step' chosen path =>
      rw [step] at step'
      cases step'
      have plain := (guardedStep_eq_fork_iff.mp step).1
      rcases path.cut thread.place with path | ⟨last, _, _, side', here, fork, chosen', more, path⟩
      · exact ⟨side, flag, chosen, id, path⟩
      · -- The last visit differs from the first only in its note.
        rw [headUsed_of_fork plain chosen] at more
        rw [Thread.eq_relying here more, step_relying, plain] at fork
        cases fork
        rcases chosen' with rfl | rfl
        · obtain ⟨less, le, lower⟩ := path.of_relying
          exact ⟨first, less, .inl rfl, le, lower⟩
        · obtain ⟨less, le, lower⟩ := path.of_relying
          exact ⟨second, less, .inr rfl, le, lower⟩
  | _ step' => simp [step] at step'

end Accepts

end Machine

end PatternMachine

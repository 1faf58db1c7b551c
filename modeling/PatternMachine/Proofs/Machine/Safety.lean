import PatternMachine.Proofs.Machine.Lines
import PatternMachine.Proofs.Machine.Room

/-!
# Runs stay inside

Where the limits have room for a text, control of a closed program never leaves the program and
never leaves the text, along whatever path a run takes and for whatever thread it saves. So only
the limit on nesting can stop a run, and only a depth-first one.
-/

namespace PatternMachine

namespace Machine

variable {machine : Machine} {text line : Array Symbol} {thread next : Thread}

/-! ## Threads -/

/-- The thread stands at an instruction and in the text, and its step does not fault. -/
structure SafeAt (machine : Machine) (text : Array Symbol) (thread : Thread) : Prop where
  inside : (machine.program.fetch? thread.pc).isSome
  within : thread.Within text
  steps : ∃ result, machine.step text thread = .ok result

theorem Moves.flows (move : machine.Moves text thread next) :
    machine.program.Flows thread.pc next.pc := by
  cases move with
  | advance step => exact flows_of_advance step
  | fork step chosen => exact flows_of_fork step chosen

namespace SafeAt

theorem of_within (roomy : machine.Roomy text) (within : thread.Within text)
    (inside : (machine.program.fetch? thread.pc).isSome) : machine.SafeAt text thread := by
  obtain ⟨instruction, fetched⟩ := Option.isSome_iff_exists.mp inside
  exact ⟨inside, within, roomy.step_ne_error within fetched⟩

theorem start (roomy : machine.Roomy text) (closed : machine.program.Closed) :
    machine.SafeAt text {} :=
  of_within roomy (Thread.within_start text) closed.start

theorem move (safe : machine.SafeAt text thread) (roomy : machine.Roomy text)
    (closed : machine.program.Closed) (move : machine.Moves text thread next) :
    machine.SafeAt text next :=
  of_within roomy (move.within safe.within) (closed.flows move.flows)

theorem of_reaches (roomy : machine.Roomy text) (closed : machine.program.Closed)
    (reaches : machine.Reaches text thread) : machine.SafeAt text thread := by
  induction reaches with
  | refl => exact start roomy closed
  | tail _ move ih => exact ih.move roomy closed move

end SafeAt

/-! ## Breadth-first runs -/

/-- Where a breadth-first run stands: the thread it follows, the saved threads and the marks. -/
structure Frontier where
  thread : Thread := {}
  saved : List Thread := []
  marks : Marks := ∅

def Frontier.threads (frontier : Frontier) : List Thread :=
  frontier.thread :: frontier.saved

/-- What is left of the run from here, with the given number of steps. -/
def Frontier.followed (machine : Machine) (text : Array Symbol) (steps : Nat)
    (frontier : Frontier) : Except Fault Verdict :=
  machine.follow text steps frontier.thread frontier.saved frontier.marks

/-- One step of a breadth-first run that does not end it. -/
inductive Continues (machine : Machine) (text : Array Symbol) : Frontier → Frontier → Prop where
  | advance {thread next : Thread} {saved : List Thread} {marks : Marks}
      (step : machine.guardedStep text marks thread = .ok (.advance next)) :
      Continues machine text ⟨thread, saved, marks⟩ ⟨next, saved, marks⟩
  | fork {thread first second : Thread} {saved : List Thread} {marks : Marks}
      (step : machine.guardedStep text marks thread = .ok (.fork first second)) :
      Continues machine text ⟨thread, saved, marks⟩
        ⟨first, second :: saved, marks.insert thread.place⟩
  | resume {thread next : Thread} {saved : List Thread} {marks : Marks}
      (step : machine.guardedStep text marks thread = .ok .fail) :
      Continues machine text ⟨thread, next :: saved, marks⟩ ⟨next, saved, marks⟩

namespace Continues

variable {before after : Frontier}

theorem followed_eq (continues : machine.Continues text before after) (steps : Nat) :
    before.followed machine text (steps + 1) = after.followed machine text steps := by
  cases continues with
  | advance step | fork step | resume step =>
      rw [Frontier.followed, follow_succ, step]
      rfl

theorem reaches (continues : machine.Continues text before after)
    (all : ∀ thread ∈ before.threads, machine.Reaches text thread) :
    ∀ thread ∈ after.threads, machine.Reaches text thread := by
  obtain ⟨here, saved⟩ := List.forall_mem_cons.mp all
  cases continues with
  | advance step =>
      have plain := guardedStep_eq_advance_iff.mp step
      exact List.forall_mem_cons.mpr ⟨here.tail (.advance plain), saved⟩
  | fork step =>
      have plain := (guardedStep_eq_fork_iff.mp step).1
      exact List.forall_mem_cons.mpr ⟨here.tail (.fork plain (.inl rfl)),
        List.forall_mem_cons.mpr ⟨here.tail (.fork plain (.inr rfl)), saved⟩⟩
  | resume step => exact saved

end Continues

def ComesTo (machine : Machine) (text : Array Symbol) (frontier : Frontier) : Prop :=
  Relation.ReflTransGen (machine.Continues text) {} frontier

theorem reaches_of_comesTo {frontier : Frontier} (comes : machine.ComesTo text frontier) :
    ∀ thread ∈ frontier.threads, machine.Reaches text thread := by
  induction comes with
  | refl =>
      refine List.forall_mem_cons.mpr ⟨.refl, fun thread mem => ?_⟩
      exact absurd mem List.not_mem_nil
  | tail _ continues ih => exact continues.reaches ih

/-- A breadth-first run ends at the frontier, with the result. -/
inductive Halts (machine : Machine) (text : Array Symbol) :
    Frontier → Except Fault Verdict → Prop where
  | fault {thread : Thread} {saved : List Thread} {marks : Marks} {fault : Fault}
      (step : machine.guardedStep text marks thread = .error fault) :
      Halts machine text ⟨thread, saved, marks⟩ (.error fault)
  | accept {thread : Thread} {saved : List Thread} {marks : Marks}
      (step : machine.guardedStep text marks thread = .ok .accept) :
      Halts machine text ⟨thread, saved, marks⟩ (.ok (.accept thread.headUsed))
  | fail {thread : Thread} {marks : Marks}
      (step : machine.guardedStep text marks thread = .ok .fail) :
      Halts machine text ⟨thread, [], marks⟩ (.ok .noMatch)

theorem Continues.rightUnique : Relator.RightUnique (machine.Continues text) := by
  intro before after after' continues continues'
  cases continues <;> cases continues' <;> simp_all

theorem Halts.not_continues {last next : Frontier} {result : Except Fault Verdict}
    (halts : machine.Halts text last result) : ¬ machine.Continues text last next := by
  intro continues
  cases halts <;> cases continues <;> simp_all

theorem Halts.rightUnique : Relator.RightUnique (machine.Halts text) := by
  intro last result other halts halts'
  cases halts <;> cases halts' <;> simp_all

/-- A run that is not stopped for its length goes on step by step to a frontier where it ends. -/
theorem followed_halts {steps : Nat} {frontier : Frontier} {result : Except Fault Verdict}
    (followed : frontier.followed machine text steps = result) :
    (∃ address, result = .error ⟨.endless, address⟩) ∨
      ∃ last, Relation.ReflTransGen (machine.Continues text) frontier last ∧
        machine.Halts text last result := by
  induction steps generalizing frontier with
  | zero => exact .inl ⟨_, followed.symm⟩
  | succ steps ih =>
      have onward {after : Frontier} (continues : machine.Continues text frontier after) :
          (∃ address, result = .error ⟨.endless, address⟩) ∨
            ∃ last, Relation.ReflTransGen (machine.Continues text) frontier last ∧
              machine.Halts text last result := by
        rw [continues.followed_eq] at followed
        obtain endless | ⟨last, path, halts⟩ := ih followed
        · exact .inl endless
        · exact .inr ⟨last, .head continues path, halts⟩
      obtain ⟨thread, saved, marks⟩ := frontier
      cases step : machine.guardedStep text marks thread with
      | error fault =>
          rw [Frontier.followed, follow_succ, step] at followed
          exact .inr ⟨_, .refl, followed ▸ .fault step⟩
      | ok asked =>
          cases asked with
          | advance next => exact onward (.advance step)
          | fork first second => exact onward (.fork step)
          | accept =>
              rw [Frontier.followed, follow_succ, step] at followed
              exact .inr ⟨_, .refl, followed ▸ .accept step⟩
          | fail =>
              cases saved with
              | cons next rest => exact onward (.resume step)
              | nil =>
                  rw [Frontier.followed, follow_succ, step] at followed
                  exact .inr ⟨_, .refl, followed ▸ .fail step⟩

theorem followed_eq_error {steps : Nat} {frontier : Frontier} {fault : Fault}
    (error : frontier.followed machine text steps = .error fault) :
    (∃ address, fault = ⟨.endless, address⟩) ∨
      ∃ later, Relation.ReflTransGen (machine.Continues text) frontier later ∧
        machine.step text later.thread = .error fault := by
  obtain ⟨address, endless⟩ | ⟨last, path, halts⟩ := followed_halts error
  · exact .inl ⟨address, Except.error.inj endless⟩
  · cases halts with
    | fault step => exact .inr ⟨_, path, guardedStep_eq_error_iff.mp step⟩

/-! ## Verdicts -/

section Verdicts

variable (roomy : machine.Roomy text) (closed : machine.program.Closed)
  (acyclic : machine.program.NoIdleCycle)
include roomy closed acyclic

theorem runBreadth_eq_ok : ∃ verdict, machine.run .breadthFirst text = .ok verdict := by
  cases ran : machine.runBreadth text with
  | ok verdict => exact ⟨verdict, ran⟩
  | error fault =>
      exfalso
      have followed : Frontier.followed machine text (machine.runSteps text.size) {} =
          .error fault := ran
      obtain ⟨address, rfl⟩ | ⟨later, comes, faults⟩ := followed_eq_error followed
      · exact runBreadth_ends acyclic text address ran
      · have reaches := reaches_of_comesTo comes later.thread List.mem_cons_self
        obtain ⟨result, ok⟩ := (SafeAt.of_reaches roomy closed reaches).steps
        rw [ok] at faults
        cases faults

theorem runDepth_eq_error {fault : Fault} (error : machine.run .depthFirst text = .error fault) :
    fault.reason = .depthLimit ∧ machine.config.maxDepth < machine.nesting text.size := by
  obtain ⟨leaves, explored, merged | ⟨deep, address, limit⟩⟩ := runDepth_total acyclic text
  · exfalso
    have noFault := explored.noFault roomy closed (Thread.within_start text) closed.start
    obtain ⟨verdict, ok⟩ := Leaf.merged_of_noFault noFault
    rw [run, merged, ok] at error
    cases error
  · rw [run, limit] at error
    cases error
    exact ⟨rfl, deep⟩

end Verdicts

/-! ## Lines -/

theorem Roomy.rest (roomy : machine.Roomy line) (start : Nat) :
    machine.Roomy (line.extract start line.size) where
  addresses := roomy.addresses
  offsets := by
    have offsets := roomy.offsets
    rw [Array.size_extract]
    omega

theorem size_rest_le (line : Array Symbol) (start : Nat) :
    (line.extract start line.size).size ≤ line.size := by
  rw [Array.size_extract]
  omega

theorem nesting_mono (machine : Machine) {length length' : Nat} (le : length ≤ length') :
    machine.nesting length ≤ machine.nesting length' :=
  Nat.mul_le_mul_right _ (Nat.succ_le_succ le)

section Lines

variable (roomy : machine.Roomy line) (closed : machine.program.Closed)
  (acyclic : machine.program.NoIdleCycle)
include roomy closed acyclic

theorem matchLine_breadthFirst_eq_ok :
    ∃ answer, (machine.matchLine .breadthFirst line).value = .ok answer := by
  cases searched : (machine.matchLine .breadthFirst line).value with
  | ok answer => exact ⟨answer, rfl⟩
  | error fault =>
      obtain ⟨start, -, failed⟩ := searchAt_eq_error searched
      obtain ⟨verdict, ok⟩ := runBreadth_eq_ok (roomy.rest start) closed acyclic
      rw [ok] at failed
      cases failed

/-- A depth-first search of a line fails only for the nesting of a run on the rest of the line. -/
theorem matchLine_depthFirst_eq_error {fault : Fault}
    (error : (machine.matchLine .depthFirst line).value = .error fault) :
    fault.reason = .depthLimit ∧ machine.config.maxDepth < machine.nesting line.size := by
  obtain ⟨start, -, failed⟩ := searchAt_eq_error error
  obtain ⟨limit, deep⟩ := runDepth_eq_error (roomy.rest start) closed acyclic failed
  exact ⟨limit, Nat.lt_of_lt_of_le deep (machine.nesting_mono (size_rest_le line start))⟩

end Lines

end Machine

end PatternMachine

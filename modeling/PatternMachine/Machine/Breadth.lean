import PatternMachine.Machine.Depth

/-!
# Breadth-first evaluation

The second side of a split waits on a stack until the path before it has failed, and the first
path that accepts decides. The marks hold all splits of the run: one that is reached again at the
same offset has failed before or closes an empty loop, so the path fails there.
-/

namespace PatternMachine

/-- Takes the thread that was saved last from the saved threads, newest first. -/
def popContext : List Thread → Except Fault (Thread × List Thread)
  | [] => .error { reason := .noContext }
  | thread :: rest => .ok (thread, rest)

namespace Machine

/--
Follows a thread until it accepts or fails, and then the saved threads, newest first. The whole
run may not take more than the number of steps.
-/
def follow (machine : Machine) (text : Array Symbol) :
    Nat → Thread → List Thread → Marks → Except Fault Verdict
  | 0, thread, _, _ => .error ⟨.endless, thread.pc⟩
  | steps + 1, thread, saved, marks =>
      match machine.guardedStep text marks thread with
      | .error fault => .error fault
      | .ok .accept => .ok (.accept thread.headUsed)
      | .ok .fail =>
          match saved with
          | [] => .ok .noMatch
          | _ :: _ =>
              match popContext saved with
              | .error fault => .error fault
              | .ok (next, rest) => machine.follow text steps next rest marks
      | .ok (.advance next) => machine.follow text steps next saved marks
      | .ok (.fork first second) =>
          machine.follow text steps first (second :: saved) (marks.insert thread.place)

/--
The most steps of a run that ends: each mark starts a path on either side, the run itself starts
one, and a path until its next split consumes at most every symbol and jumps between.
-/
def runSteps (machine : Machine) (length : Nat) : Nat :=
  (2 * machine.nesting length + 1) * ((length + 1) * (machine.program.size + 1))

def runBreadth (machine : Machine) (text : Array Symbol) : Except Fault Verdict :=
  machine.follow text (machine.runSteps text.size) {} [] ∅

end Machine

end PatternMachine

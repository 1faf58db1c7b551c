import PatternMachine.Machine.Marks
import PatternMachine.Machine.Verdict

/-!
# Depth-first evaluation

Both sides of every split are explored, the first side first, and their verdicts merged. The
marks hold the splits of the current path: a path that comes back to one of them has gone round
an empty loop and is dropped, and a mark is taken away when both its sides are done. Only the limit
of the configuration bounds how deep splits nest. How a host makes room for nested calls, and what
it does when there is none, is left out.
-/

namespace PatternMachine

namespace Machine

/--
Explores all paths from a thread on. The result is the verdict and the marks that are left. No
path may be longer than the number of steps.
-/
def explore (machine : Machine) (text : Array Symbol) :
    Nat → Thread → Marks → Except Fault (Verdict × Marks)
  | 0, thread, _ => .error ⟨.endless, thread.pc⟩
  | steps + 1, thread, marks =>
      match machine.guardedStep text marks thread with
      | .error fault => .error fault
      | .ok .fail => .ok (.noMatch, marks)
      | .ok .accept => .ok (.accept thread.headUsed, marks)
      | .ok (.advance next) => machine.explore text steps next marks
      | .ok (.fork first second) =>
          if machine.config.maxDepth ≤ marks.size then .error ⟨.depthLimit, thread.pc⟩
          else
            match machine.explore text steps first (marks.insert thread.place) with
            | .error fault => .error fault
            | .ok (one, marks) =>
                match machine.explore text steps second marks with
                | .error fault => .error fault
                | .ok (other, marks) => .ok (one.merge other, marks.erase thread.place)

/-- The most splits that a path over a number of symbols can nest: each at each offset. -/
def nesting (machine : Machine) (length : Nat) : Nat :=
  (length + 1) * machine.program.splits

/--
The depth that an evaluation over a number of symbols can need, up to the limit. The number is an
integer, so that the bound can be asked for any.
-/
def depthBound (machine : Machine) (length : Int) : Int :=
  min ((length + 1) * machine.program.splits) machine.config.maxDepth

theorem depthBound_natCast (machine : Machine) (length : Nat) :
    machine.depthBound length = (min (machine.nesting length) machine.config.maxDepth : Nat) := by
  have product : ((machine.nesting length : Nat) : Int) = (length + 1) * machine.program.splits :=
    Int.natCast_mul (length + 1) machine.program.splits
  rw [depthBound, ← product]
  omega

/--
The most steps of a path that ends. A path consumes at most every symbol and splits at most once
per mark; between two of these events it only jumps or passes start anchors, and an address that
comes back there comes back forever.
-/
def pathSteps (machine : Machine) (length : Nat) : Nat :=
  (length + machine.nesting length + 1) * (machine.program.size + 1)

def runDepth (machine : Machine) (text : Array Symbol) : Except Fault Verdict :=
  match machine.explore text (machine.pathSteps text.size) {} ∅ with
  | .error fault => .error fault
  | .ok (verdict, _) => .ok verdict

end Machine

end PatternMachine

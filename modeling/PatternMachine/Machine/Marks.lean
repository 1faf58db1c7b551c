import PatternMachine.Machine.Step
import Std.Data.ExtTreeSet

/-!
# Marks

A mark is left where a thread splits. The marks of a run form a set of places, and two sets with
the same places are equal. A split that is reached again at a marked place fails; this is what
ends loops whose body consumes nothing.
-/

namespace PatternMachine

structure Place where
  address : Int
  offset : Int
  deriving DecidableEq

namespace Place

def order : Place → Place → Ordering :=
  compareLex (compareOn Place.address) (compareOn Place.offset)

instance : Std.TransCmp order :=
  inferInstanceAs (Std.TransCmp (compareLex (compareOn Place.address) (compareOn Place.offset)))

instance : Std.LawfulEqCmp order where
  eq_of_compare {a b} h := by
    obtain ⟨address, offset⟩ := a
    obtain ⟨address', offset'⟩ := b
    simp [order, compareLex, compareOn] at h
    simp [h]

end Place

def Thread.place (thread : Thread) : Place :=
  ⟨thread.pc, thread.offset⟩

abbrev Marks := Std.ExtTreeSet Place Place.order

namespace Marks

theorem erase_insert {marks : Marks} {place : Place} (h : place ∉ marks) :
    (marks.insert place).erase place = marks := by
  apply Std.ExtTreeSet.ext_mem
  intro other
  by_cases same : place = other
  · subst same
    simp [h]
  · simp [Std.ExtTreeSet.mem_erase, Std.ExtTreeSet.mem_insert, same]

end Marks

namespace Machine

/-- The step of a thread among marks: a split at a marked place fails instead of forking. -/
def guardedStep (machine : Machine) (text : Array Symbol) (marks : Marks) (thread : Thread) :
    Except Fault Step :=
  match machine.step text thread with
  | .ok (.fork first second) =>
      if marks.contains thread.place then .ok .fail else .ok (.fork first second)
  | step => step

end Machine

end PatternMachine

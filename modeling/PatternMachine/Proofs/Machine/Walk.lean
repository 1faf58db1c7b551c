import PatternMachine.Proofs.Machine.Descent
import PatternMachine.Proofs.Machine.Safety

/-!
# Evaluations step by step

Both strategies as transition systems. A walk returns a result if it cannot go on forever and
ends with that result wherever it cannot go on. Since both systems are deterministic, one state at
which a walk ends decides; so the walk returns what the run returns, unless the run was stopped
for its length.
-/

namespace PatternMachine

/-- An evaluation step by step: how a state goes on, and with which result it ends. -/
structure Walk where
  State : Type
  start : State
  Goes : State → State → Prop
  Ends : State → Except Fault Verdict → Prop

namespace Walk

def ComesTo (walk : Walk) (state : walk.State) : Prop :=
  Relation.ReflTransGen walk.Goes walk.start state

/-- The walk does not go on forever, and wherever it stops it ends with the result. -/
structure Returns (walk : Walk) (result : Except Fault Verdict) : Prop where
  finite : Acc (fun after before => walk.Goes before after) walk.start
  ends : ∀ state, walk.ComesTo state → (∃ next, walk.Goes state next) ∨ walk.Ends state result

structure Deterministic (walk : Walk) : Prop where
  goes : Relator.RightUnique walk.Goes
  last {state next : walk.State} {result : Except Fault Verdict} :
    walk.Ends state result → ¬ walk.Goes state next
  result : Relator.RightUnique walk.Ends

variable {walk : Walk} {result other : Except Fault Verdict}

theorem Returns.exists_ends (returns : walk.Returns result) :
    ∃ last, walk.ComesTo last ∧ walk.Ends last result := by
  have onward (state : walk.State)
      (finite : Acc (fun after before => walk.Goes before after) state) :
      walk.ComesTo state → ∃ last, walk.ComesTo last ∧ walk.Ends last result := by
    induction finite with
    | intro state _ ih =>
        intro comes
        rcases returns.ends state comes with ⟨next, goes⟩ | ends
        · exact ih next goes (comes.tail goes)
        · exact ⟨state, comes, ends⟩
  exact onward walk.start returns.finite .refl

namespace Deterministic

variable {last state : walk.State}

/-- Every state that a walk comes to is on the way to where it ends. -/
theorem comes_last (deterministic : walk.Deterministic) (ends : walk.Ends last result)
    (comes : walk.ComesTo last) (other : walk.ComesTo state) :
    Relation.ReflTransGen walk.Goes state last := by
  rcases Relation.ReflTransGen.total_of_right_unique deterministic.goes other comes with
    onward | back
  · exact onward
  · rcases Relation.ReflTransGen.cases_head back with rfl | ⟨next, goes, -⟩
    · exact .refl
    · exact absurd goes (deterministic.last ends)

theorem finite (deterministic : walk.Deterministic) (ends : walk.Ends last result)
    (path : Relation.ReflTransGen walk.Goes state last) :
    Acc (fun after before => walk.Goes before after) state := by
  induction path using Relation.ReflTransGen.head_induction_on with
  | refl => exact .intro _ fun next goes => absurd goes (deterministic.last ends)
  | head goes _ ih =>
      refine .intro _ fun next goes' => ?_
      rw [deterministic.goes goes' goes]
      exact ih

/-- One state where a deterministic walk ends decides what it returns. -/
theorem returns (deterministic : walk.Deterministic) (comes : walk.ComesTo last)
    (ends : walk.Ends last result) : walk.Returns result where
  finite := deterministic.finite ends comes
  ends := by
    intro state other
    rcases (deterministic.comes_last ends comes other).cases_head with rfl | ⟨next, goes, -⟩
    · exact .inr ends
    · exact .inl ⟨next, goes⟩

theorem eq_of_returns (deterministic : walk.Deterministic) (returns : walk.Returns result)
    (returns' : walk.Returns other) : result = other := by
  obtain ⟨last, comes, ends⟩ := returns.exists_ends
  rcases returns'.ends last comes with ⟨next, goes⟩ | ends'
  · exact absurd goes (deterministic.last ends)
  · exact deterministic.result ends ends'

end Deterministic

end Walk

namespace Machine

variable {machine : Machine} {text : Array Symbol}

def walk (machine : Machine) (text : Array Symbol) : Strategy → Walk
  | .depthFirst => ⟨Descent, {}, machine.Descends text, machine.Bottoms text⟩
  | .breadthFirst => ⟨Frontier, {}, machine.Continues text, machine.Halts text⟩

theorem walk_deterministic (machine : Machine) (text : Array Symbol) (strategy : Strategy) :
    (machine.walk text strategy).Deterministic := by
  cases strategy with
  | depthFirst => exact ⟨Descends.rightUnique, Bottoms.not_descends, Bottoms.rightUnique⟩
  | breadthFirst => exact ⟨Continues.rightUnique, Halts.not_continues, Halts.rightUnique⟩

/-- A walk returns what the run returns, if that was not stopped for its length. -/
theorem walk_returns_run {strategy : Strategy}
    (ends : ∀ address, machine.run strategy text ≠ .error ⟨.endless, address⟩) :
    (machine.walk text strategy).Returns (machine.run strategy text) := by
  have last : ∃ last, (machine.walk text strategy).ComesTo last ∧
      (machine.walk text strategy).Ends last (machine.run strategy text) := by
    cases strategy with
    | depthFirst =>
        have ran : machine.runDepth text = machine.run .depthFirst text := rfl
        rcases bottoms_of_runDepth ran with ⟨address, endless⟩ | last
        · exact absurd endless (ends address)
        · exact last
    | breadthFirst =>
        have followed : Frontier.followed machine text (machine.runSteps text.size) {} =
            machine.runBreadth text := rfl
        rcases followed_halts followed with ⟨address, endless⟩ | last
        · exact absurd endless (ends address)
        · exact last
  obtain ⟨last, comes, ends⟩ := last
  exact (machine.walk_deterministic text strategy).returns comes ends

end Machine

end PatternMachine

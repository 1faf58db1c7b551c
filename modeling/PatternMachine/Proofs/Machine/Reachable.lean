import Mathlib.Data.Set.Insert
import PatternMachine.Proofs.Machine.Strategies

/-!
# Reachable threads

A depth-first run that returns has seen every place that is reachable without the guard: where
the guard cuts a path, the moves from there have been explored further up on the same path. So
no reachable thread faults, not even on the paths that were cut.
-/

namespace PatternMachine

namespace Machine

variable {machine : Machine} {text : Array Symbol}

/-! ## Threads at one place -/

theorem step_of_place (machine : Machine) (text : Array Symbol) {thread other : Thread}
    (same : other.place = thread.place) :
    ∃ plain : Except Fault Step,
      machine.step text thread = plain.map (Step.relying thread.headUsed) ∧
        machine.step text other = plain.map (Step.relying other.headUsed) := by
  have bare : thread = Thread.relying thread.headUsed { thread with headUsed := false } :=
    Thread.eq_relying rfl (by simp)
  have bare' : other = Thread.relying other.headUsed { thread with headUsed := false } :=
    Thread.eq_relying same (by simp)
  refine ⟨machine.step text { thread with headUsed := false }, ?_, ?_⟩
  · rw [← step_relying, ← bare]
  · rw [← step_relying, ← bare']

theorem step_eq_ok_of_place {thread other : Thread} {result : Step}
    (same : other.place = thread.place) (step : machine.step text thread = .ok result) :
    ∃ result, machine.step text other = .ok result := by
  obtain ⟨plain, threadStep, otherStep⟩ := step_of_place machine text same
  cases plain with
  | error fault =>
      rw [step] at threadStep
      cases threadStep
  | ok plain => exact ⟨_, otherStep⟩

namespace Moves

theorem of_place {thread other next : Thread} (move : machine.Moves text other next)
    (same : other.place = thread.place) :
    ∃ next', machine.Moves text thread next' ∧ next'.place = next.place := by
  obtain ⟨plain, threadStep, otherStep⟩ := step_of_place machine text same
  cases plain with
  | error fault => cases move <;> simp_all [Except.map]
  | ok plain =>
      cases move with
      | advance step =>
          rw [step] at otherStep
          cases plain <;> cases otherStep
          exact ⟨_, .advance threadStep, rfl⟩
      | fork step chosen =>
          rw [step] at otherStep
          cases plain <;> cases otherStep
          rcases chosen with rfl | rfl
          · exact ⟨_, .fork threadStep (.inl rfl), rfl⟩
          · exact ⟨_, .fork threadStep (.inr rfl), rfl⟩

theorem eq_of_advance {thread next other : Thread} (move : machine.Moves text thread other)
    (step : machine.step text thread = .ok (.advance next)) : other = next := by
  cases move <;> simp_all

theorem eq_of_fork {thread first second other : Thread} (move : machine.Moves text thread other)
    (step : machine.step text thread = .ok (.fork first second)) :
    other = first ∨ other = second := by
  cases move <;> simp_all

end Moves

/-! ## Closed sets of places -/

/-- No thread at the place faults, and all moves from there lead to places of the set. -/
def ClosedAt (machine : Machine) (text : Array Symbol) (visited : Set Place) (place : Place) :
    Prop :=
  ∀ thread : Thread, thread.place = place →
    (∃ result, machine.step text thread = .ok result) ∧
      ∀ next, machine.Moves text thread next → next.place ∈ visited

namespace ClosedAt

variable {visited visited' : Set Place} {place : Place}

theorem mono (closed : machine.ClosedAt text visited place) (subset : visited ⊆ visited') :
    machine.ClosedAt text visited' place := by
  intro thread here
  obtain ⟨ok, moves⟩ := closed thread here
  exact ⟨ok, fun next move => subset (moves next move)⟩

theorem of_thread {thread : Thread} {result : Step} (step : machine.step text thread = .ok result)
    (moves : ∀ next, machine.Moves text thread next → next.place ∈ visited) :
    machine.ClosedAt text visited thread.place := by
  intro other same
  refine ⟨step_eq_ok_of_place same step, fun next move => ?_⟩
  obtain ⟨next', move', place⟩ := move.of_place same
  exact place ▸ moves next' move'

end ClosedAt

/--
The places that an exploration comes to are closed under moves. Only at the marks it began with
an exploration stops short; at those it makes itself both sides are explored.
-/
theorem HasLeaves.exists_closed {marks : Marks} {thread : Thread} {leaves : List Leaf}
    (explored : machine.HasLeaves text marks thread leaves)
    (noFault : ∀ fault, .faults fault ∉ leaves) :
    ∃ visited : Set Place, thread.place ∈ visited ∧
      ∀ place ∈ visited, place ∈ marks ∨ machine.ClosedAt text visited place := by
  induction explored with
  | fault step => simp at noFault
  | @fail marks thread step =>
      refine ⟨{thread.place}, rfl, ?_⟩
      rintro _ rfl
      rcases guardedStep_eq_fail_iff.mp step with plain | ⟨-, marked⟩
      · refine .inr (.of_thread plain fun next move => ?_)
        cases move <;> simp_all
      · exact .inl marked
  | @accept marks thread step =>
      refine ⟨{thread.place}, rfl, ?_⟩
      rintro _ rfl
      refine .inr (.of_thread (guardedStep_eq_accept_iff.mp step) fun next move => ?_)
      have plain := guardedStep_eq_accept_iff.mp step
      cases move <;> simp_all
  | @advance marks thread next leaves step _ ih =>
      have plain := guardedStep_eq_advance_iff.mp step
      obtain ⟨visited, mem, closed⟩ := ih noFault
      refine ⟨insert thread.place visited, Set.mem_insert _ _, ?_⟩
      rintro place (rfl | old)
      · refine .inr (.of_thread plain fun other move => ?_)
        exact move.eq_of_advance plain ▸ Set.mem_insert_of_mem _ mem
      · exact (closed place old).imp id fun closed => closed.mono (Set.subset_insert _ _)
  | @fork marks thread first second left right step _ _ ihOne ihOther =>
      have plain := (guardedStep_eq_fork_iff.mp step).1
      obtain ⟨one, memOne, closedOne⟩ :=
        ihOne fun fault mem => noFault fault (List.mem_append_left _ mem)
      obtain ⟨other, memOther, closedOther⟩ :=
        ihOther fun fault mem => noFault fault (List.mem_append_right _ mem)
      have here : machine.ClosedAt text (insert thread.place (one ∪ other)) thread.place := by
        refine .of_thread plain fun next move => Set.mem_insert_of_mem _ ?_
        rcases move.eq_of_fork plain with rfl | rfl
        · exact .inl memOne
        · exact .inr memOther
      refine ⟨insert thread.place (one ∪ other), Set.mem_insert _ _, ?_⟩
      -- A side stops short also at the new mark, which is the place of the split itself.
      have side {visited : Set Place} {place : Place} (subset : visited ⊆ one ∪ other)
          (closed : place ∈ marks.insert thread.place ∨ machine.ClosedAt text visited place) :
          place ∈ marks ∨ machine.ClosedAt text (insert thread.place (one ∪ other)) place := by
        rcases closed with marked | closed
        · rcases Marks.mem_insert.mp marked with rfl | old
          · exact .inr here
          · exact .inl old
        · exact .inr (closed.mono (subset.trans (Set.subset_insert _ _)))
      rintro place (rfl | inOne | inOther)
      · exact .inr here
      · exact side Set.subset_union_left (closedOne place inOne)
      · exact side Set.subset_union_right (closedOther place inOther)

/-! ## Reachable threads -/

/-- Where a depth-first run returns, no thread that is reachable without the guard faults. -/
theorem step_eq_ok_of_reaches {verdict : Verdict} (ok : machine.run .depthFirst text = .ok verdict)
    {thread : Thread} (reaches : machine.Reaches text thread) :
    ∃ result, machine.step text thread = .ok result := by
  obtain ⟨leaves, explored, merged⟩ := runDepth_eq_ok ok
  obtain ⟨visited, start, closed⟩ := explored.exists_closed (Leaf.merged_eq_ok merged).1
  have closedAt {place : Place} (mem : place ∈ visited) : machine.ClosedAt text visited place :=
    (closed place mem).resolve_left Std.ExtTreeSet.not_mem_empty
  have mem : thread.place ∈ visited := by
    induction reaches with
    | refl => exact start
    | tail _ move ih => exact (closedAt ih _ rfl).2 _ move
  exact (closedAt mem _ rfl).1

theorem Moves.within {thread next : Thread} (move : machine.Moves text thread next)
    (within : thread.Within text) : next.Within text := by
  cases move with
  | advance step => exact within_advance within step
  | fork step chosen => exact within_fork within step chosen

theorem within_of_reaches {thread : Thread} (reaches : machine.Reaches text thread) :
    thread.Within text := by
  induction reaches with
  | refl => exact Thread.within_start text
  | tail _ move ih => exact move.within ih

end Machine

end PatternMachine

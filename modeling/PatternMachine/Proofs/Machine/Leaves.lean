import PatternMachine.Machine.Depth
import PatternMachine.Proofs.Machine.Moves

/-!
# Leaves of an exploration

The ends of all paths of a depth-first exploration in the order in which they are reached. The
depth-first verdict merges them, and an accepting leaf stands for every accepting path that splits
at no marked place.
-/

namespace PatternMachine

/-- How one path of an exploration ends. -/
inductive Leaf where
  | fails
  | accepts (headUsed : Bool)
  | faults (fault : Fault)
  deriving DecidableEq

namespace Verdict

theorem noMatch_merge (verdict : Verdict) : noMatch.merge verdict = verdict :=
  rfl

theorem merge_assoc (first second third : Verdict) :
    (first.merge second).merge third = first.merge (second.merge third) := by
  obtain ⟨matched, requiresHead⟩ := first
  obtain ⟨matched', requiresHead'⟩ := second
  cases matched <;> cases matched' <;> simp [merge]
  split <;> simp [Bool.and_assoc]

theorem requiresHead_accept_merge (flag : Bool) (other : Verdict) :
    ((accept flag).merge other).requiresHead =
      (flag && (!other.matched || other.requiresHead)) := by
  cases matched : other.matched <;> cases flag <;> simp [merge, accept, matched]

end Verdict

namespace Leaf

def outcome : Leaf → Except Fault Verdict
  | .fails => .ok .noMatch
  | .accepts headUsed => .ok (.accept headUsed)
  | .faults fault => .error fault

/-- The result of the first leaf that does not fail, and no match if all fail. -/
def first : List Leaf → Except Fault Verdict
  | [] => .ok .noMatch
  | .fails :: rest => first rest
  | leaf :: _ => leaf.outcome

/-- The merge of two results; the first fault decides. -/
def merge : Except Fault Verdict → Except Fault Verdict → Except Fault Verdict
  | .error fault, _ => .error fault
  | .ok _, .error fault => .error fault
  | .ok verdict, .ok other => .ok (verdict.merge other)

def merged : List Leaf → Except Fault Verdict
  | [] => .ok .noMatch
  | leaf :: rest => merge leaf.outcome (merged rest)

theorem merge_assoc (one two three : Except Fault Verdict) :
    merge (merge one two) three = merge one (merge two three) := by
  cases one <;> cases two <;> cases three <;> simp [merge, Verdict.merge_assoc]

theorem noMatch_merge (result : Except Fault Verdict) : merge (.ok .noMatch) result = result := by
  cases result <;> rfl

theorem merged_append (front back : List Leaf) :
    merged (front ++ back) = merge (merged front) (merged back) := by
  induction front with
  | nil => exact (noMatch_merge _).symm
  | cons leaf rest ih => rw [List.cons_append, merged, merged, ih, merge_assoc]

theorem first_append (front back : List Leaf) (fails : ∀ leaf ∈ front, leaf = .fails) :
    first (front ++ back) = first back := by
  induction front with
  | nil => rfl
  | cons leaf rest ih =>
      obtain ⟨rfl, restFails⟩ := List.forall_mem_cons.mp fails
      exact ih restFails

theorem first_of_noFault {leaves : List Leaf} (noFault : ∀ fault, .faults fault ∉ leaves) :
    (first leaves = .ok .noMatch ∧ ∀ flag, .accepts flag ∉ leaves) ∨
      ∃ flag, first leaves = .ok (.accept flag) ∧ .accepts flag ∈ leaves := by
  induction leaves with
  | nil => exact .inl ⟨rfl, fun _ => List.not_mem_nil⟩
  | cons leaf rest ih =>
      cases leaf with
      | faults fault => exact absurd List.mem_cons_self (noFault fault)
      | accepts flag => exact .inr ⟨flag, rfl, List.mem_cons_self⟩
      | fails =>
          rcases ih fun fault mem => noFault fault (List.mem_cons_of_mem _ mem) with
            ⟨none, fails⟩ | ⟨flag, decided, mem⟩
          · exact .inl ⟨none, fun flag => by simpa using fails flag⟩
          · exact .inr ⟨flag, decided, List.mem_cons_of_mem _ mem⟩

theorem merged_of_noFault {leaves : List Leaf} (noFault : ∀ fault, .faults fault ∉ leaves) :
    ∃ verdict, merged leaves = .ok verdict := by
  induction leaves with
  | nil => exact ⟨.noMatch, rfl⟩
  | cons leaf rest ih =>
      obtain ⟨verdict, mergedRest⟩ :=
        ih fun fault mem => noFault fault (List.mem_cons_of_mem _ mem)
      rw [merged, mergedRest]
      cases leaf with
      | faults fault => exact absurd List.mem_cons_self (noFault fault)
      | fails => exact ⟨_, rfl⟩
      | accepts flag => exact ⟨_, rfl⟩

theorem mem_of_merged_eq_error {leaves : List Leaf} {fault : Fault}
    (error : merged leaves = .error fault) : .faults fault ∈ leaves := by
  induction leaves with
  | nil => cases error
  | cons leaf rest ih =>
      cases leaf with
      | faults found =>
          cases error
          exact List.mem_cons_self
      | fails | accepts flag =>
          cases mergedRest : merged rest with
          | error found =>
              rw [merged, mergedRest] at error
              cases error
              exact List.mem_cons_of_mem _ (ih mergedRest)
          | ok verdict =>
              rw [merged, mergedRest] at error
              cases error

theorem merged_eq_ok {leaves : List Leaf} {verdict : Verdict} (ok : merged leaves = .ok verdict) :
    (∀ fault, .faults fault ∉ leaves) ∧
      (verdict.matched = true ↔ ∃ flag, .accepts flag ∈ leaves) ∧
      (verdict.requiresHead = true ↔
        (∃ flag, .accepts flag ∈ leaves) ∧ .accepts false ∉ leaves) := by
  induction leaves generalizing verdict with
  | nil =>
      cases ok
      simp [Verdict.noMatch]
  | cons leaf rest ih =>
      rw [merged] at ok
      cases mergedRest : merged rest with
      | error fault =>
          rw [mergedRest] at ok
          cases leaf <;> cases ok
      | ok other =>
          rw [mergedRest] at ok
          obtain ⟨noFault, matched, requiresHead⟩ := ih mergedRest
          cases leaf with
          | faults fault => cases ok
          | fails =>
              cases ok
              refine ⟨by simpa using noFault, ?_, ?_⟩
              · simpa only [Verdict.noMatch_merge, List.mem_cons, reduceCtorEq, false_or]
              · simpa only [Verdict.noMatch_merge, List.mem_cons, reduceCtorEq, false_or]
          | accepts flag =>
              cases ok
              refine ⟨by simpa using noFault, ?_, ?_⟩
              · simp [Verdict.matched_merge, Verdict.accept]
              · rw [Verdict.requiresHead_accept_merge]
                cases flag with
                | false => simp
                | true =>
                    have clear : .accepts false ∉ rest ↔
                        other.matched = false ∨ other.requiresHead = true := by
                      rw [requiresHead, ← matched]
                      cases hit : other.matched with
                      | false =>
                          have none : .accepts false ∉ rest :=
                            fun mem => by simp [hit] at matched; exact matched.1 mem
                          simp [none]
                      | true => simp
                    simp [clear]

/-- The leaves that do not fail. -/
def decisive (leaves : List Leaf) : List Leaf :=
  leaves.filter fun leaf => leaf ≠ .fails

theorem decisive_append (front back : List Leaf) :
    decisive (front ++ back) = decisive front ++ decisive back :=
  List.filter_append front back

theorem first_decisive (leaves : List Leaf) : first (decisive leaves) = first leaves := by
  induction leaves with
  | nil => rfl
  | cons leaf rest ih =>
      cases leaf with
      | fails => exact ih
      | accepts flag => rfl
      | faults fault => rfl

theorem merged_decisive (leaves : List Leaf) : merged (decisive leaves) = merged leaves := by
  induction leaves with
  | nil => rfl
  | cons leaf rest ih =>
      cases leaf with
      | fails => exact ih.trans (noMatch_merge (merged rest)).symm
      | accepts flag => exact congrArg (merge _) ih
      | faults fault => exact congrArg (merge _) ih

end Leaf

namespace Machine

variable {machine : Machine} {text : Array Symbol}

/--
The leaves of an exploration from a thread, the first side of a fork before the second. The marks
are the splits of the path so far; a path that comes back to one of them fails there.
-/
inductive HasLeaves (machine : Machine) (text : Array Symbol) :
    Marks → Thread → List Leaf → Prop where
  | fault {marks : Marks} {thread : Thread} {fault : Fault}
      (step : machine.guardedStep text marks thread = .error fault) :
      HasLeaves machine text marks thread [.faults fault]
  | fail {marks : Marks} {thread : Thread}
      (step : machine.guardedStep text marks thread = .ok .fail) :
      HasLeaves machine text marks thread [.fails]
  | accept {marks : Marks} {thread : Thread}
      (step : machine.guardedStep text marks thread = .ok .accept) :
      HasLeaves machine text marks thread [.accepts thread.headUsed]
  | advance {marks : Marks} {thread next : Thread} {leaves : List Leaf}
      (step : machine.guardedStep text marks thread = .ok (.advance next))
      (rest : HasLeaves machine text marks next leaves) :
      HasLeaves machine text marks thread leaves
  | fork {marks : Marks} {thread first second : Thread} {left right : List Leaf}
      (step : machine.guardedStep text marks thread = .ok (.fork first second))
      (one : HasLeaves machine text (marks.insert thread.place) first left)
      (other : HasLeaves machine text (marks.insert thread.place) second right) :
      HasLeaves machine text marks thread (left ++ right)

namespace HasLeaves

theorem of_advance {marks : Marks} {thread next : Thread} {leaves : List Leaf}
    (explored : machine.HasLeaves text marks thread leaves)
    (step : machine.guardedStep text marks thread = .ok (.advance next)) :
    machine.HasLeaves text marks next leaves := by
  cases explored with
  | advance step' rest =>
      rw [step] at step'
      cases step'
      exact rest
  | _ step' => simp [step] at step'

theorem of_fork {marks : Marks} {thread first second : Thread} {leaves : List Leaf}
    (explored : machine.HasLeaves text marks thread leaves)
    (step : machine.guardedStep text marks thread = .ok (.fork first second)) :
    ∃ left right, leaves = left ++ right ∧
      machine.HasLeaves text (marks.insert thread.place) first left ∧
      machine.HasLeaves text (marks.insert thread.place) second right := by
  cases explored with
  | fork step' one other =>
      rw [step] at step'
      cases step'
      exact ⟨_, _, rfl, one, other⟩
  | _ step' => simp [step] at step'

theorem unique {marks : Marks} {thread : Thread} {leaves leaves' : List Leaf}
    (explored : machine.HasLeaves text marks thread leaves)
    (explored' : machine.HasLeaves text marks thread leaves') : leaves = leaves' := by
  induction explored generalizing leaves' with
  | fault step => cases explored' <;> simp_all
  | fail step => cases explored' <;> simp_all
  | accept step => cases explored' <;> simp_all
  | advance step _ ih => exact ih (explored'.of_advance step)
  | fork step _ _ ihOne ihOther =>
      obtain ⟨left, right, rfl, one, other⟩ := explored'.of_fork step
      rw [ihOne one, ihOther other]

theorem step_of_faults {marks : Marks} {thread : Thread} {leaves : List Leaf}
    (explored : machine.HasLeaves text marks thread leaves) {fault : Fault}
    (faults : .faults fault ∈ leaves) :
    ∃ final, machine.step text final = .error fault := by
  induction explored with
  | fault step =>
      obtain rfl := Leaf.faults.inj (List.mem_singleton.mp faults)
      exact ⟨_, guardedStep_eq_error_iff.mp step⟩
  | fail step => simp at faults
  | accept step => simp at faults
  | advance _ _ ih => exact ih faults
  | fork _ _ _ ihOne ihOther => exact (List.mem_append.mp faults).elim ihOne ihOther

theorem accepts {marks : Marks} {thread : Thread} {leaves : List Leaf}
    (explored : machine.HasLeaves text marks thread leaves) {flag : Bool}
    (accepted : .accepts flag ∈ leaves) : machine.Accepts text ∅ thread flag := by
  induction explored with
  | fault step => simp at accepted
  | fail step => simp at accepted
  | accept step =>
      obtain rfl : flag = _ := by simpa using accepted
      exact .accept (guardedStep_eq_accept_iff.mpr (guardedStep_eq_accept_iff.mp step))
  | advance step _ ih =>
      exact .advance (guardedStep_eq_advance_iff.mpr (guardedStep_eq_advance_iff.mp step))
        (ih accepted)
  | fork step _ _ ihOne ihOther =>
      have unguarded := guardedStep_eq_fork_iff.mpr
        ⟨(guardedStep_eq_fork_iff.mp step).1, Std.ExtTreeSet.not_mem_empty⟩
      rcases List.mem_append.mp accepted with left | right
      · exact .fork unguarded (.inl rfl) (ihOne left)
      · exact .fork unguarded (.inr rfl) (ihOther right)

/--
Behind every accepting path that splits at no marked place stands an accepting leaf that relies
on no more, unless a fault ends the exploration.
-/
theorem exists_accepts {marks : Marks} {thread : Thread} {leaves : List Leaf}
    (explored : machine.HasLeaves text marks thread leaves)
    (noFault : ∀ fault, .faults fault ∉ leaves) {flag : Bool}
    (path : machine.Accepts text marks thread flag) :
    ∃ less, (less = true → flag = true) ∧ .accepts less ∈ leaves := by
  induction explored generalizing flag with
  | fault step => simp at noFault
  | fail step => cases path <;> simp_all
  | @accept marks thread step =>
      cases path with
      | accept => exact ⟨thread.headUsed, id, by simp⟩
      | _ step' => simp [step] at step'
  | advance step _ ih =>
      cases path with
      | advance step' path =>
          rw [step] at step'
          cases step'
          exact ih noFault path
      | _ step' => simp [step] at step'
  | @fork marks thread first second left right step _ _ ihOne ihOther =>
      obtain ⟨side, less, chosen, le, clear⟩ := path.leave step
      rcases chosen with rfl | rfl
      · obtain ⟨least, le', mem⟩ :=
          ihOne (fun fault mem => noFault fault (List.mem_append_left _ mem)) clear
        exact ⟨least, le ∘ le', List.mem_append_left _ mem⟩
      · obtain ⟨least, le', mem⟩ :=
          ihOther (fun fault mem => noFault fault (List.mem_append_right _ mem)) clear
        exact ⟨least, le ∘ le', List.mem_append_right _ mem⟩

/-- The merged verdict of a whole run tells what accepts on unguarded paths. -/
theorem verdict_iff {thread : Thread} {leaves : List Leaf} {verdict : Verdict}
    (explored : machine.HasLeaves text ∅ thread leaves) (ok : Leaf.merged leaves = .ok verdict) :
    (verdict.matched = true ↔ ∃ flag, machine.Accepts text ∅ thread flag) ∧
      (verdict.requiresHead = true ↔
        (∃ flag, machine.Accepts text ∅ thread flag) ∧ ¬ machine.Accepts text ∅ thread false) := by
  obtain ⟨noFault, matched, requiresHead⟩ := Leaf.merged_eq_ok ok
  have some_iff : (∃ flag, .accepts flag ∈ leaves) ↔
      ∃ flag, machine.Accepts text ∅ thread flag := by
    constructor
    · rintro ⟨flag, mem⟩
      exact ⟨flag, explored.accepts mem⟩
    · rintro ⟨flag, path⟩
      obtain ⟨less, -, mem⟩ := explored.exists_accepts noFault path
      exact ⟨less, mem⟩
  have free_iff : .accepts false ∈ leaves ↔ machine.Accepts text ∅ thread false := by
    constructor
    · exact explored.accepts
    · intro path
      obtain ⟨less, le, mem⟩ := explored.exists_accepts noFault path
      cases less with
      | false => exact mem
      | true => exact absurd (le rfl) (by simp)
  rw [matched, requiresHead, some_iff, free_iff]
  exact ⟨.rfl, .rfl⟩

end HasLeaves

/-! ## One more step -/

section Step

variable {marks : Marks} {thread next first second : Thread} {steps : Nat} {fault : Fault}

theorem explore_next (machine : Machine) (text : Array Symbol) (steps : Nat) (thread : Thread)
    (marks : Marks) :
    machine.explore text (steps + 1) thread marks =
      match machine.guardedStep text marks thread with
      | .error fault => .error fault
      | .ok .fail => .ok (.noMatch, marks)
      | .ok .accept => .ok (.accept thread.headUsed, marks)
      | .ok (.advance next) => machine.explore text steps next marks
      | .ok (.fork first second) =>
          if machine.config.maxDepth ≤ marks.size then .error ⟨.depthLimit, thread.pc⟩
          else
            match machine.explore text steps first (marks.insert thread.place) with
            | .error fault => .error fault
            | .ok (one, marks) =>
                match machine.explore text steps second marks with
                | .error fault => .error fault
                | .ok (other, marks) => .ok (one.merge other, marks.erase thread.place) :=
  rfl

theorem explore_fault (step : machine.guardedStep text marks thread = .error fault) :
    machine.explore text (steps + 1) thread marks = .error fault := by
  rw [explore_next, step]

theorem explore_fail (step : machine.guardedStep text marks thread = .ok .fail) :
    machine.explore text (steps + 1) thread marks = .ok (.noMatch, marks) := by
  rw [explore_next, step]

theorem explore_accept (step : machine.guardedStep text marks thread = .ok .accept) :
    machine.explore text (steps + 1) thread marks = .ok (.accept thread.headUsed, marks) := by
  rw [explore_next, step]

theorem explore_advance (step : machine.guardedStep text marks thread = .ok (.advance next)) :
    machine.explore text (steps + 1) thread marks = machine.explore text steps next marks := by
  rw [explore_next, step]

theorem explore_fork (step : machine.guardedStep text marks thread = .ok (.fork first second))
    (room : marks.size < machine.config.maxDepth) :
    machine.explore text (steps + 1) thread marks =
      (machine.explore text steps first (marks.insert thread.place)).bind fun one =>
        (machine.explore text steps second one.2).bind fun other =>
          .ok (one.1.merge other.1, other.2.erase thread.place) := by
  rw [explore_next, step]
  simp only [if_neg (Nat.not_le_of_lt room)]
  cases machine.explore text steps first (marks.insert thread.place) with
  | error fault => rfl
  | ok one => cases other : machine.explore text steps second one.2 <;> simp [other, Except.bind]

theorem explore_full (step : machine.guardedStep text marks thread = .ok (.fork first second))
    (full : machine.config.maxDepth ≤ marks.size) :
    machine.explore text (steps + 1) thread marks = .error ⟨.depthLimit, thread.pc⟩ := by
  rw [explore_next, step]
  exact if_pos full

end Step

/-- An exploration that returns has merged its leaves and left the marks as they were. -/
theorem explore_eq_ok {steps : Nat} {thread : Thread} {marks marks' : Marks} {verdict : Verdict}
    (ok : machine.explore text steps thread marks = .ok (verdict, marks')) :
    marks' = marks ∧
      ∃ leaves, machine.HasLeaves text marks thread leaves ∧ Leaf.merged leaves = .ok verdict := by
  induction steps generalizing thread marks marks' verdict with
  | zero => cases ok
  | succ steps ih =>
      cases step : machine.guardedStep text marks thread with
      | error fault =>
          rw [explore_fault step] at ok
          cases ok
      | ok result =>
          cases result with
          | fail =>
              rw [explore_fail step] at ok
              cases ok
              exact ⟨rfl, _, .fail step, rfl⟩
          | accept =>
              rw [explore_accept step] at ok
              cases ok
              exact ⟨rfl, _, .accept step, rfl⟩
          | advance next =>
              rw [explore_advance step] at ok
              obtain ⟨same, leaves, explored, merged⟩ := ih ok
              exact ⟨same, leaves, .advance step explored, merged⟩
          | fork first second =>
              have unmarked := (guardedStep_eq_fork_iff.mp step).2
              by_cases room : marks.size < machine.config.maxDepth
              · rw [explore_fork step room] at ok
                cases oneOk : machine.explore text steps first (marks.insert thread.place) with
                | error fault =>
                    rw [oneOk] at ok
                    cases ok
                | ok one =>
                    obtain ⟨one, kept⟩ := one
                    obtain ⟨rfl, left, leftExplored, leftMerged⟩ := ih oneOk
                    cases otherOk : machine.explore text steps second
                        (marks.insert thread.place) with
                    | error fault =>
                        simp only [oneOk, otherOk, Except.bind, reduceCtorEq] at ok
                    | ok other =>
                        obtain ⟨other, kept⟩ := other
                        obtain ⟨rfl, right, rightExplored, rightMerged⟩ := ih otherOk
                        simp only [oneOk, otherOk, Except.bind, Except.ok.injEq,
                          Prod.mk.injEq] at ok
                        obtain ⟨rfl, rfl⟩ := ok
                        refine ⟨Marks.erase_insert unmarked, left ++ right,
                          .fork step leftExplored rightExplored, ?_⟩
                        rw [Leaf.merged_append, leftMerged, rightMerged]
                        rfl
              · rw [explore_full step (Nat.le_of_not_lt room)] at ok
                cases ok

/-! ## Forks -/

section Forks

variable {marks marks' : Marks} {thread first second : Thread} {steps : Nat} {verdict : Verdict}
  {fault : Fault} (step : machine.guardedStep text marks thread = .ok (.fork first second))
include step

theorem explore_sides (room : marks.size < machine.config.maxDepth) :
    machine.explore text (steps + 1) thread marks =
      (machine.explore text steps first (marks.insert thread.place)).bind fun one =>
        (machine.explore text steps second (marks.insert thread.place)).bind fun other =>
          .ok (one.1.merge other.1, marks) := by
  have unmarked := (guardedStep_eq_fork_iff.mp step).2
  rw [explore_fork step room]
  cases explored : machine.explore text steps first (marks.insert thread.place) with
  | error fault => rfl
  | ok one =>
      have kept := (explore_eq_ok explored).1
      simp only [Except.bind, kept]
      cases explored' : machine.explore text steps second (marks.insert thread.place) with
      | error fault => rfl
      | ok other =>
          simp only [(explore_eq_ok explored').1, Marks.erase_insert unmarked]

theorem explore_fork_eq_ok
    (ok : machine.explore text (steps + 1) thread marks = .ok (verdict, marks')) :
    marks.size < machine.config.maxDepth ∧ marks' = marks ∧
      ∃ one other, verdict = one.merge other ∧
        machine.explore text steps first (marks.insert thread.place) =
          .ok (one, marks.insert thread.place) ∧
        machine.explore text steps second (marks.insert thread.place) =
          .ok (other, marks.insert thread.place) := by
  by_cases room : marks.size < machine.config.maxDepth
  · rw [explore_sides step room] at ok
    cases oneOk : machine.explore text steps first (marks.insert thread.place) with
    | error fault =>
        rw [oneOk] at ok
        cases ok
    | ok one =>
        cases otherOk : machine.explore text steps second (marks.insert thread.place) with
        | error fault =>
            rw [oneOk, otherOk] at ok
            cases ok
        | ok other =>
            rw [oneOk, otherOk] at ok
            cases ok
            obtain ⟨one, kept⟩ := one
            obtain ⟨other, kept'⟩ := other
            obtain rfl := (explore_eq_ok oneOk).1
            obtain rfl := (explore_eq_ok otherOk).1
            exact ⟨room, rfl, one, other, rfl, rfl, rfl⟩
  · rw [explore_full step (Nat.le_of_not_lt room)] at ok
    cases ok

theorem explore_fork_eq_error
    (error : machine.explore text (steps + 1) thread marks = .error fault) :
    (machine.config.maxDepth ≤ marks.size ∧ fault = ⟨.depthLimit, thread.pc⟩) ∨
      marks.size < machine.config.maxDepth ∧
        (machine.explore text steps first (marks.insert thread.place) = .error fault ∨
          (∃ one, machine.explore text steps first (marks.insert thread.place) =
            .ok (one, marks.insert thread.place)) ∧
          machine.explore text steps second (marks.insert thread.place) = .error fault) := by
  by_cases room : marks.size < machine.config.maxDepth
  · refine .inr ⟨room, ?_⟩
    rw [explore_sides step room] at error
    cases oneExplored : machine.explore text steps first (marks.insert thread.place) with
    | error found =>
        rw [oneExplored] at error
        cases error
        exact .inl rfl
    | ok one =>
        obtain ⟨one, kept⟩ := one
        obtain rfl := (explore_eq_ok oneExplored).1
        cases otherExplored : machine.explore text steps second (marks.insert thread.place) with
        | error found =>
            rw [oneExplored, otherExplored] at error
            cases error
            exact .inr ⟨⟨one, rfl⟩, rfl⟩
        | ok other =>
            rw [oneExplored, otherExplored] at error
            cases error
  · have full := Nat.le_of_not_lt room
    rw [explore_full step full, Except.error.injEq] at error
    exact .inl ⟨full, error.symm⟩

end Forks

/-! ## Runs -/

theorem runDepth_eq_ok {verdict : Verdict} (ok : machine.runDepth text = .ok verdict) :
    ∃ leaves, machine.HasLeaves text ∅ {} leaves ∧ Leaf.merged leaves = .ok verdict := by
  rw [runDepth] at ok
  split at ok
  · cases ok
  · rename_i found marks explored
    cases ok
    exact (explore_eq_ok explored).2

end Machine

end PatternMachine

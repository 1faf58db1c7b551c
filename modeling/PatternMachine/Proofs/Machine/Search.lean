import PatternMachine.Machine.Breadth
import PatternMachine.Proofs.Machine.Leaves

/-!
# The search for the first match

A breadth-first run seen as a recursive search that hands its marks on and keeps every mark it
has made. A search that comes back without a match has settled its thread: all that was reached
has failed or been cut at a mark, and both sides of every mark made on the way are settled. Such
marks hide nothing, so the search ends as the first leaf of the exploration that does not fail.
-/

namespace PatternMachine

namespace Machine

variable {machine : Machine} {text : Array Symbol} {marks : Marks}

/-- How a search from a thread ends: with a result, or with all the marks that it has left. -/
inductive Trial where
  | decided (result : Except Fault Verdict)
  | exhausted (marks : Marks)

/-- The trial is decided by the first of the leaves that does not fail, or all of them fail. -/
def Trial.EndsAs (leaves : List Leaf) : Trial → Prop
  | .decided result => ∀ rest, Leaf.first (leaves ++ rest) = result
  | .exhausted _ => ∀ leaf ∈ leaves, leaf = .fails

/-- The search from a thread among marks ends in this way. -/
inductive Tries (machine : Machine) (text : Array Symbol) : Marks → Thread → Trial → Prop where
  | fault {marks : Marks} {thread : Thread} {fault : Fault}
      (step : machine.guardedStep text marks thread = .error fault) :
      Tries machine text marks thread (.decided (.error fault))
  | accept {marks : Marks} {thread : Thread}
      (step : machine.guardedStep text marks thread = .ok .accept) :
      Tries machine text marks thread (.decided (.ok (.accept thread.headUsed)))
  | fail {marks : Marks} {thread : Thread}
      (step : machine.guardedStep text marks thread = .ok .fail) :
      Tries machine text marks thread (.exhausted marks)
  | advance {marks : Marks} {thread next : Thread} {trial : Trial}
      (step : machine.guardedStep text marks thread = .ok (.advance next))
      (rest : Tries machine text marks next trial) : Tries machine text marks thread trial
  | first {marks : Marks} {thread first second : Thread} {result : Except Fault Verdict}
      (step : machine.guardedStep text marks thread = .ok (.fork first second))
      (one : Tries machine text (marks.insert thread.place) first (.decided result)) :
      Tries machine text marks thread (.decided result)
  | second {marks marks' : Marks} {thread first second : Thread} {trial : Trial}
      (step : machine.guardedStep text marks thread = .ok (.fork first second))
      (one : Tries machine text (marks.insert thread.place) first (.exhausted marks'))
      (other : Tries machine text marks' second trial) : Tries machine text marks thread trial

/-! ## Settled threads -/

/-- The thread runs into a failure or a marked split. -/
inductive Settled (machine : Machine) (text : Array Symbol) (marks : Marks) : Thread → Prop where
  | fail {thread : Thread} (step : machine.guardedStep text marks thread = .ok .fail) :
      Settled machine text marks thread
  | advance {thread next : Thread}
      (step : machine.guardedStep text marks thread = .ok (.advance next))
      (rest : Settled machine text marks next) : Settled machine text marks thread

/-- Both sides of a split at the place are settled. -/
def Spent (machine : Machine) (text : Array Symbol) (marks : Marks) (place : Place) : Prop :=
  ∀ thread first second side, thread.place = place →
    machine.step text thread = .ok (.fork first second) → (side = first ∨ side = second) →
    machine.Settled text marks side

namespace Settled

theorem mono {thread : Thread} {marks' : Marks} (settled : machine.Settled text marks thread)
    (subset : ∀ place ∈ marks, place ∈ marks') : machine.Settled text marks' thread := by
  induction settled with
  | fail step =>
      refine .fail (guardedStep_eq_fail_iff.mpr ?_)
      exact (guardedStep_eq_fail_iff.mp step).imp id (And.imp id (subset _))
  | advance step _ ih =>
      exact .advance (guardedStep_eq_advance_iff.mpr (guardedStep_eq_advance_iff.mp step)) ih

theorem relying {thread : Thread} (settled : machine.Settled text marks thread) (flag : Bool) :
    machine.Settled text marks (thread.relying flag) := by
  induction settled with
  | fail step => exact .fail (by rw [guardedStep_relying, step]; rfl)
  | advance step _ ih => exact .advance (by rw [guardedStep_relying, step]; rfl) ih

theorem of_relying {thread : Thread} {flag : Bool}
    (settled : machine.Settled text marks (thread.relying flag)) :
    machine.Settled text marks thread := by
  generalize same : thread.relying flag = other at settled
  induction settled generalizing thread with
  | fail step =>
      subst same
      obtain ⟨lower, lowerStep, lifted⟩ := guardedStep_relying_eq_ok step
      cases lower <;> cases lifted
      exact .fail lowerStep
  | advance step _ ih =>
      subst same
      obtain ⟨lower, lowerStep, lifted⟩ := guardedStep_relying_eq_ok step
      cases lower <;> cases lifted
      exact .advance lowerStep (ih rfl)

theorem of_place {thread other : Thread} (settled : machine.Settled text marks thread)
    (same : other.place = thread.place) : machine.Settled text marks other := by
  have bare : thread = Thread.relying thread.headUsed { thread with headUsed := false } :=
    Thread.eq_relying rfl (by simp)
  have bare' : other = Thread.relying other.headUsed { thread with headUsed := false } :=
    Thread.eq_relying same (by simp)
  rw [bare] at settled
  rw [bare']
  exact settled.of_relying.relying _

theorem step_cases {thread : Thread} (settled : machine.Settled text marks thread) :
    machine.step text thread = .ok .fail ∨
      (∃ first second, machine.step text thread = .ok (.fork first second) ∧
        thread.place ∈ marks) ∨
      ∃ next, machine.step text thread = .ok (.advance next) ∧
        machine.Settled text marks next := by
  cases settled with
  | fail step =>
      rcases guardedStep_eq_fail_iff.mp step with step | ⟨⟨first, second, step⟩, marked⟩
      · exact .inl step
      · exact .inr (.inl ⟨first, second, step, marked⟩)
  | advance step rest => exact .inr (.inr ⟨_, guardedStep_eq_advance_iff.mp step, rest⟩)

end Settled

theorem spent_of_settled {thread first second : Thread}
    (step : machine.step text thread = .ok (.fork first second))
    (one : machine.Settled text marks first) (other : machine.Settled text marks second) :
    machine.Spent text marks thread.place := by
  intro thread' first' second' side here step' chosen
  obtain ⟨fetched, firstEq, secondEq⟩ := step_eq_fork step
  obtain ⟨fetched', firstEq', secondEq'⟩ := step_eq_fork step'
  obtain ⟨pcEq, offsetEq⟩ := Place.mk.inj here
  rw [pcEq, fetched, Option.some.injEq, Instruction.split.injEq] at fetched'
  rcases chosen with rfl | rfl
  · refine one.of_place ?_
    rw [firstEq, firstEq']
    exact Place.mk.injEq .. ▸ ⟨fetched'.1.symm, offsetEq⟩
  · refine other.of_place ?_
    rw [secondEq, secondEq']
    exact Place.mk.injEq .. ▸ ⟨fetched'.2.symm, offsetEq⟩

theorem Spent.mono {place : Place} {marks' : Marks} (spent : machine.Spent text marks place)
    (subset : ∀ place ∈ marks, place ∈ marks') : machine.Spent text marks' place :=
  fun thread first second side here step chosen =>
    (spent thread first second side here step chosen).mono subset

/-- All marks but those of the path `active` are spent. -/
def SpentOff (machine : Machine) (text : Array Symbol) (marks active : Marks) : Prop :=
  ∀ place ∈ marks, place ∉ active → machine.Spent text marks place

theorem SpentOff.insert {active : Marks} (spent : machine.SpentOff text marks active)
    (place : Place) : machine.SpentOff text (marks.insert place) (active.insert place) := by
  intro other mem off
  rw [Marks.mem_insert, not_or] at off
  have old := (Marks.mem_insert.mp mem).resolve_left off.1
  exact (spent other old off.2).mono fun _ mem => Marks.mem_insert.mpr (.inr mem)

namespace Settled

/-- All leaves behind a settled thread fail. -/
theorem leaves_fail {thread : Thread} {active : Marks} {leaves : List Leaf}
    (settled : machine.Settled text marks thread) (spent : machine.SpentOff text marks active)
    (explored : machine.HasLeaves text active thread leaves) :
    ∀ leaf ∈ leaves, leaf = .fails := by
  induction explored with
  | fault step =>
      have plain := guardedStep_eq_error_iff.mp step
      rcases settled.step_cases with step | ⟨_, _, step, -⟩ | ⟨_, step, -⟩ <;>
        simp [plain] at step
  | fail step => simp
  | accept step =>
      have plain := guardedStep_eq_accept_iff.mp step
      rcases settled.step_cases with step | ⟨_, _, step, -⟩ | ⟨_, step, -⟩ <;>
        simp [plain] at step
  | advance step _ ih =>
      have plain := guardedStep_eq_advance_iff.mp step
      rcases settled.step_cases with step | ⟨_, _, step, -⟩ | ⟨_, step, rest⟩
      · simp [plain] at step
      · simp [plain] at step
      · rw [plain] at step
        cases step
        exact ih rest spent
  | @fork active thread first second left right step _ _ ihOne ihOther =>
      obtain ⟨plain, inactive⟩ := guardedStep_eq_fork_iff.mp step
      rcases settled.step_cases with step | ⟨_, _, -, marked⟩ | ⟨_, step, -⟩
      · simp [plain] at step
      · have sides := spent _ marked inactive thread first second
        have still : machine.SpentOff text marks (active.insert thread.place) :=
          fun place mem off => spent place mem (fun on => off (Marks.mem_insert.mpr (.inr on)))
        intro leaf mem
        rcases List.mem_append.mp mem with mem | mem
        · exact ihOne (sides first rfl plain (.inl rfl)) still leaf mem
        · exact ihOther (sides second rfl plain (.inr rfl)) still leaf mem
      · simp [plain] at step

/-- Where every mark is spent, no path from a settled thread accepts. -/
theorem not_accepts {thread : Thread} {flag : Bool} (settled : machine.Settled text marks thread)
    (spent : machine.SpentOff text marks ∅) : ¬ machine.Accepts text ∅ thread flag := by
  intro path
  induction path with
  | accept step =>
      have plain := guardedStep_eq_accept_iff.mp step
      rcases settled.step_cases with step | ⟨_, _, step, -⟩ | ⟨_, step, -⟩ <;>
        simp [plain] at step
  | advance step _ ih =>
      have plain := guardedStep_eq_advance_iff.mp step
      rcases settled.step_cases with step | ⟨_, _, step, -⟩ | ⟨_, step, rest⟩
      · simp [plain] at step
      · simp [plain] at step
      · rw [plain] at step
        cases step
        exact ih rest
  | @fork thread first second side _ step chosen _ ih =>
      have plain := (guardedStep_eq_fork_iff.mp step).1
      rcases settled.step_cases with step | ⟨_, _, -, marked⟩ | ⟨_, step, -⟩
      · simp [plain] at step
      · exact ih (spent _ marked Std.ExtTreeSet.not_mem_empty thread first second side rfl
          plain chosen)
      · simp [plain] at step

end Settled

/-! ## Searches -/

namespace Tries

theorem subset_insert {active : Marks} {here : Place}
    (subset : ∀ place ∈ active, place ∈ marks) :
    ∀ place ∈ active.insert here, place ∈ marks.insert here :=
  fun place mem => Marks.mem_insert.mpr ((Marks.mem_insert.mp mem).imp id (subset place))

/--
A search that ends without a result keeps all marks and has settled its thread; of the marks it
has added all are spent.
-/
theorem exhausted {thread : Thread} {trial : Trial} (search : machine.Tries text marks thread trial)
    {marks' active : Marks} (ends : trial = .exhausted marks')
    (spent : machine.SpentOff text marks active) :
    (∀ place ∈ marks, place ∈ marks') ∧ machine.Settled text marks' thread ∧
      machine.SpentOff text marks' active := by
  induction search generalizing active marks' with
  | fault step => cases ends
  | accept step => cases ends
  | fail step =>
      cases ends
      exact ⟨fun _ => id, .fail step, spent⟩
  | advance step _ ih =>
      obtain ⟨subset, settled, spent⟩ := ih ends spent
      have plain := guardedStep_eq_advance_iff.mp step
      exact ⟨subset, .advance (guardedStep_eq_advance_iff.mpr plain) settled, spent⟩
  | first step _ _ => cases ends
  | @second marks marks₁ thread first second _ step _ _ ihOne ihOther =>
      have plain := (guardedStep_eq_fork_iff.mp step).1
      obtain ⟨subsetOne, settledOne, spentOne⟩ := ihOne rfl (spent.insert thread.place)
      obtain ⟨subsetOther, settledOther, spentOther⟩ := ihOther ends spentOne
      have whole : ∀ place ∈ marks.insert thread.place, place ∈ marks' :=
        fun place mem => subsetOther place (subsetOne place mem)
      have here := whole thread.place (Marks.mem_insert.mpr (.inl rfl))
      refine ⟨fun place mem => whole place (Marks.mem_insert.mpr (.inr mem)), ?_, ?_⟩
      · exact .fail (guardedStep_eq_fail_iff.mpr (.inr ⟨⟨first, second, plain⟩, here⟩))
      · -- The split itself is spent now, since both its sides are settled.
        intro place mem off
        by_cases same : place = thread.place
        · subst same
          exact spent_of_settled plain (settledOne.mono subsetOther) settledOther
        · exact spentOther place mem (fun on => off ((Marks.mem_insert.mp on).resolve_left same))

/--
A search ends as the first leaf that does not fail, if the marks of its path are among its marks
and all others are spent.
-/
theorem leaves {thread : Thread} {trial : Trial} (search : machine.Tries text marks thread trial)
    {active : Marks} {leaves : List Leaf} (subset : ∀ place ∈ active, place ∈ marks)
    (spent : machine.SpentOff text marks active)
    (explored : machine.HasLeaves text active thread leaves) :
    trial.EndsAs leaves := by
  induction search generalizing active leaves with
  | fault step =>
      have plain := guardedStep_eq_error_iff.mp step
      rw [explored.unique (.fault (guardedStep_eq_error_iff.mpr plain))]
      exact fun _ => rfl
  | accept step =>
      have plain := guardedStep_eq_accept_iff.mp step
      rw [explored.unique (.accept (guardedStep_eq_accept_iff.mpr plain))]
      exact fun _ => rfl
  | fail step => exact (Settled.fail step).leaves_fail spent explored
  | advance step _ ih =>
      have plain := guardedStep_eq_advance_iff.mp step
      exact ih subset spent (explored.of_advance (guardedStep_eq_advance_iff.mpr plain))
  | @first marks thread first second result step _ ih =>
      obtain ⟨plain, unmarked⟩ := guardedStep_eq_fork_iff.mp step
      have inactive : thread.place ∉ active := fun on => unmarked (subset _ on)
      obtain ⟨left, right, rfl, one, other⟩ :=
        explored.of_fork (guardedStep_eq_fork_iff.mpr ⟨plain, inactive⟩)
      intro rest
      rw [List.append_assoc]
      exact ih (subset_insert subset) (spent.insert _) one (right ++ rest)
  | @second marks marks₁ thread first second trial step search _ ihOne ihOther =>
      obtain ⟨plain, unmarked⟩ := guardedStep_eq_fork_iff.mp step
      have inactive : thread.place ∉ active := fun on => unmarked (subset _ on)
      obtain ⟨left, right, rfl, one, other⟩ :=
        explored.of_fork (guardedStep_eq_fork_iff.mpr ⟨plain, inactive⟩)
      have leftFails := ihOne (subset_insert subset) (spent.insert _) one
      obtain ⟨kept, -, spentOne⟩ := search.exhausted rfl (spent.insert thread.place)
      have rightEnds :=
        ihOther (fun place on => kept place (subset_insert subset place on)) spentOne other
      cases trial with
      | decided result =>
          intro rest
          rw [List.append_assoc, Leaf.first_append _ _ leftFails]
          exact rightEnds rest
      | exhausted marks' =>
          intro leaf mem
          exact (List.mem_append.mp mem).elim (leftFails leaf) (rightEnds leaf)

theorem accepts {thread : Thread} {trial : Trial} (search : machine.Tries text marks thread trial)
    {verdict : Verdict} (ends : trial = .decided (.ok verdict)) :
    ∃ flag, verdict = .accept flag ∧ machine.Accepts text ∅ thread flag := by
  induction search with
  | fault step => cases ends
  | accept step =>
      cases ends
      have plain := guardedStep_eq_accept_iff.mp step
      exact ⟨_, rfl, .accept (guardedStep_eq_accept_iff.mpr plain)⟩
  | fail step => cases ends
  | advance step _ ih =>
      obtain ⟨flag, same, path⟩ := ih ends
      have plain := guardedStep_eq_advance_iff.mp step
      exact ⟨flag, same, .advance (guardedStep_eq_advance_iff.mpr plain) path⟩
  | first step _ ih =>
      obtain ⟨flag, same, path⟩ := ih ends
      have plain := (guardedStep_eq_fork_iff.mp step).1
      exact ⟨flag, same, .fork
        (guardedStep_eq_fork_iff.mpr ⟨plain, Std.ExtTreeSet.not_mem_empty⟩) (.inl rfl) path⟩
  | second step _ _ _ ih =>
      obtain ⟨flag, same, path⟩ := ih ends
      have plain := (guardedStep_eq_fork_iff.mp step).1
      exact ⟨flag, same, .fork
        (guardedStep_eq_fork_iff.mpr ⟨plain, Std.ExtTreeSet.not_mem_empty⟩) (.inr rfl) path⟩

end Tries

/-! ## Breadth-first runs -/

/-- What is left of a run when a thread has failed. -/
def resume (machine : Machine) (text : Array Symbol) (steps : Nat) (saved : List Thread)
    (marks : Marks) : Except Fault Verdict :=
  match saved with
  | [] => .ok .noMatch
  | next :: rest => machine.follow text steps next rest marks

theorem follow_succ (machine : Machine) (text : Array Symbol) (steps : Nat) (thread : Thread)
    (saved : List Thread) (marks : Marks) :
    machine.follow text (steps + 1) thread saved marks =
      match machine.guardedStep text marks thread with
      | .error fault => .error fault
      | .ok .accept => .ok (.accept thread.headUsed)
      | .ok .fail => machine.resume text steps saved marks
      | .ok (.advance next) => machine.follow text steps next saved marks
      | .ok (.fork first second) =>
          machine.follow text steps first (second :: saved) (marks.insert thread.place) := by
  rw [follow.eq_def]
  cases saved <;> rfl

/--
A run that is not stopped for its length is a search from its thread, and where that ends without
a result the run goes on with the saved threads and the marks left behind.
-/
theorem follow_tries {steps : Nat} {thread : Thread} {saved : List Thread} {marks : Marks}
    (ends : ∀ address, machine.follow text steps thread saved marks ≠ .error ⟨.endless, address⟩) :
    (∃ result, machine.Tries text marks thread (.decided result) ∧
        machine.follow text steps thread saved marks = result) ∨
      ∃ marks' fewer, fewer < steps ∧ machine.Tries text marks thread (.exhausted marks') ∧
        machine.follow text steps thread saved marks = machine.resume text fewer saved marks' := by
  induction steps using Nat.strongRecOn generalizing thread saved marks with
  | ind steps ih =>
      cases steps with
      | zero => exact absurd rfl (ends thread.pc)
      | succ steps =>
          cases step : machine.guardedStep text marks thread with
          | error fault => exact .inl ⟨_, .fault step, by rw [follow_succ, step]⟩
          | ok result =>
              cases result with
              | accept => exact .inl ⟨_, .accept step, by rw [follow_succ, step]⟩
              | fail =>
                  exact .inr ⟨marks, steps, by simp, .fail step, by rw [follow_succ, step]⟩
              | advance next =>
                  have same : machine.follow text (steps + 1) thread saved marks =
                      machine.follow text steps next saved marks := by rw [follow_succ, step]
                  rw [same] at ends ⊢
                  rcases ih steps (by simp) ends with ⟨result, search, decided⟩ |
                    ⟨marks', fewer, less, search, resumed⟩
                  · exact .inl ⟨result, .advance step search, decided⟩
                  · exact .inr ⟨marks', fewer, by omega, .advance step search, resumed⟩
              | fork first second =>
                  have same : machine.follow text (steps + 1) thread saved marks =
                      machine.follow text steps first (second :: saved)
                        (marks.insert thread.place) := by rw [follow_succ, step]
                  rw [same] at ends ⊢
                  rcases ih steps (by simp) ends with ⟨result, search, decided⟩ |
                    ⟨marks', fewer, less, one, resumed⟩
                  · exact .inl ⟨result, .first step search, decided⟩
                  · -- The first side is exhausted, so the run is on the second side now.
                    rw [resumed, resume] at ends ⊢
                    rcases ih fewer (by omega) ends with ⟨result, other, decided⟩ |
                      ⟨marks'', least, less', other, resumed⟩
                    · exact .inl ⟨result, .second step one other, decided⟩
                    · exact .inr ⟨marks'', least, by omega, .second step one other, resumed⟩

theorem runBreadth_tries
    (ends : ∀ address, machine.runBreadth text ≠ .error ⟨.endless, address⟩) :
    machine.Tries text ∅ {} (.decided (machine.runBreadth text)) ∨
      ((∃ marks, machine.Tries text ∅ {} (.exhausted marks)) ∧
        machine.runBreadth text = .ok .noMatch) := by
  rcases follow_tries ends with ⟨result, search, decided⟩ | ⟨marks, _, -, search, resumed⟩
  · left
    rwa [runBreadth, decided]
  · right
    exact ⟨⟨marks, search⟩, resumed⟩

/-- A breadth-first run that is not stopped for its length ends as its first leaf but failures. -/
theorem runBreadth_eq_first {leaves : List Leaf}
    (ends : ∀ address, machine.runBreadth text ≠ .error ⟨.endless, address⟩)
    (explored : machine.HasLeaves text ∅ {} leaves) :
    machine.runBreadth text = Leaf.first leaves := by
  have spent : machine.SpentOff text ∅ ∅ :=
    fun place mem => absurd mem Std.ExtTreeSet.not_mem_empty
  rcases runBreadth_tries ends with search | ⟨⟨marks, search⟩, noMatch⟩
  · have decided := search.leaves (fun _ => id) spent explored []
    rw [← decided, List.append_nil]
  · have fails := search.leaves (fun _ => id) spent explored
    rw [noMatch, ← List.append_nil leaves, Leaf.first_append leaves [] fails]
    rfl

/--
The verdict of a breadth-first run that returns: it matches where a path accepts, and it has the
note of such a path.
-/
theorem runBreadth_verdict {verdict : Verdict} (ok : machine.runBreadth text = .ok verdict) :
    (verdict.matched = true ↔ ∃ flag, machine.Accepts text ∅ {} flag) ∧
      (verdict.matched = true → machine.Accepts text ∅ {} verdict.requiresHead) := by
  have ends : ∀ address, machine.runBreadth text ≠ .error ⟨.endless, address⟩ := by simp [ok]
  rcases runBreadth_tries ends with search | ⟨⟨marks, search⟩, noMatch⟩
  · rw [ok] at search
    obtain ⟨flag, rfl, path⟩ := search.accepts rfl
    exact ⟨⟨fun _ => ⟨flag, path⟩, fun _ => rfl⟩, fun _ => path⟩
  · rw [ok] at noMatch
    cases noMatch
    obtain ⟨-, settled, spent⟩ := search.exhausted rfl
      (fun place mem => absurd mem Std.ExtTreeSet.not_mem_empty : machine.SpentOff text ∅ ∅)
    refine ⟨⟨fun matched => absurd matched (by simp [Verdict.noMatch]), ?_⟩,
      fun matched => absurd matched (by simp [Verdict.noMatch])⟩
    rintro ⟨flag, path⟩
    exact absurd path (settled.not_accepts spent)

end Machine

end PatternMachine

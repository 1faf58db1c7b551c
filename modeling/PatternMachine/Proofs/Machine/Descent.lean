import PatternMachine.Proofs.Machine.Strategies

/-!
# Depth-first evaluation step by step

A depth-first run seen as a sequence of small steps on an explicit stack. The stack holds the
splits whose sides are being explored, the innermost first, and what is marked are exactly the
places of these splits. Unlike an exploration a descent is given no number of steps.
-/

namespace PatternMachine

/-- A split whose sides are being explored. -/
inductive Call where
  /-- The first side is explored; the second begins at the target. -/
  | first (thread : Thread) (target : Int)
  /-- The second side is explored; the first had this verdict. -/
  | second (thread : Thread) (one : Verdict)

def Call.thread : Call → Thread
  | .first thread _ | .second thread _ => thread

inductive Focus where
  /-- It follows a thread. -/
  | follows (thread : Thread)
  /-- It returns a verdict to the innermost call. -/
  | returns (verdict : Verdict)

/-- Where a depth-first run stands: its focus, the calls it is in, and the marks. -/
structure Descent where
  focus : Focus := .follows {}
  calls : List Call := []
  marks : Marks := ∅

namespace Machine

variable {machine : Machine} {text : Array Symbol} {marks : Marks} {thread : Thread}
  {calls : List Call}

/-- One step of a depth-first run that does not end it. -/
inductive Descends (machine : Machine) (text : Array Symbol) : Descent → Descent → Prop where
  | advance {thread next : Thread} {calls : List Call} {marks : Marks}
      (step : machine.guardedStep text marks thread = .ok (.advance next)) :
      Descends machine text ⟨.follows thread, calls, marks⟩ ⟨.follows next, calls, marks⟩
  | fail {thread : Thread} {calls : List Call} {marks : Marks}
      (step : machine.guardedStep text marks thread = .ok .fail) :
      Descends machine text ⟨.follows thread, calls, marks⟩ ⟨.returns .noMatch, calls, marks⟩
  | accept {thread : Thread} {calls : List Call} {marks : Marks}
      (step : machine.guardedStep text marks thread = .ok .accept) :
      Descends machine text ⟨.follows thread, calls, marks⟩
        ⟨.returns (.accept thread.headUsed), calls, marks⟩
  | fork {thread first second : Thread} {calls : List Call} {marks : Marks}
      (step : machine.guardedStep text marks thread = .ok (.fork first second))
      (room : marks.size < machine.config.maxDepth) :
      Descends machine text ⟨.follows thread, calls, marks⟩
        ⟨.follows first, .first thread second.pc :: calls, marks.insert thread.place⟩
  | second {thread : Thread} {target : Int} {one : Verdict} {calls : List Call} {marks : Marks} :
      Descends machine text ⟨.returns one, .first thread target :: calls, marks⟩
        ⟨.follows { thread with pc := target }, .second thread one :: calls, marks⟩
  | back {thread : Thread} {one other : Verdict} {calls : List Call} {marks : Marks} :
      Descends machine text ⟨.returns other, .second thread one :: calls, marks⟩
        ⟨.returns (one.merge other), calls, marks.erase thread.place⟩

/-- A depth-first run ends here, with the result. -/
inductive Bottoms (machine : Machine) (text : Array Symbol) :
    Descent → Except Fault Verdict → Prop where
  | fault {thread : Thread} {calls : List Call} {marks : Marks} {fault : Fault}
      (step : machine.guardedStep text marks thread = .error fault) :
      Bottoms machine text ⟨.follows thread, calls, marks⟩ (.error fault)
  | full {thread first second : Thread} {calls : List Call} {marks : Marks}
      (step : machine.guardedStep text marks thread = .ok (.fork first second))
      (full : machine.config.maxDepth ≤ marks.size) :
      Bottoms machine text ⟨.follows thread, calls, marks⟩ (.error ⟨.depthLimit, thread.pc⟩)
  | done {verdict : Verdict} {marks : Marks} :
      Bottoms machine text ⟨.returns verdict, [], marks⟩ (.ok verdict)

def DescendsTo (machine : Machine) (text : Array Symbol) (descent : Descent) : Prop :=
  Relation.ReflTransGen (machine.Descends text) {} descent

theorem Descends.rightUnique : Relator.RightUnique (machine.Descends text) := by
  intro before after after' descends descends'
  cases descends <;> cases descends' <;> simp_all

theorem Bottoms.not_descends {last next : Descent} {result : Except Fault Verdict}
    (bottoms : machine.Bottoms text last result) : ¬ machine.Descends text last next := by
  intro descends
  cases bottoms with
  | full step full =>
      cases descends with
      | fork _ room => exact absurd full (Nat.not_le_of_lt room)
      | advance step' | fail step' | accept step' => simp [step] at step'
  | fault step => cases descends <;> simp_all
  | done => cases descends

theorem Bottoms.rightUnique : Relator.RightUnique (machine.Bottoms text) := by
  intro last result other bottoms bottoms'
  cases bottoms <;> cases bottoms' <;> simp_all

/-! ## Explorations -/

theorem descends_second {first second : Thread} {one : Verdict}
    (step : machine.guardedStep text marks thread = .ok (.fork first second)) :
    machine.Descends text
      ⟨.returns one, .first thread second.pc :: calls, marks.insert thread.place⟩
      ⟨.follows second, .second thread one :: calls, marks.insert thread.place⟩ := by
  have same := (step_eq_fork (guardedStep_eq_fork_iff.mp step).1).2.2
  rw [same]
  exact .second

theorem descends_back {first second : Thread} {one other : Verdict}
    (step : machine.guardedStep text marks thread = .ok (.fork first second)) :
    machine.Descends text ⟨.returns other, .second thread one :: calls, marks.insert thread.place⟩
      ⟨.returns (one.merge other), calls, marks⟩ := by
  have back : machine.Descends text
      ⟨.returns other, .second thread one :: calls, marks.insert thread.place⟩
      ⟨.returns (one.merge other), calls, (marks.insert thread.place).erase thread.place⟩ := .back
  rwa [Marks.erase_insert (guardedStep_eq_fork_iff.mp step).2] at back

/-- An exploration that returns descends to its verdict, in whatever calls it stands. -/
theorem descends_of_explore_ok {steps : Nat} {verdict : Verdict} {marks' : Marks}
    (ok : machine.explore text steps thread marks = .ok (verdict, marks')) :
    Relation.ReflTransGen (machine.Descends text) ⟨.follows thread, calls, marks⟩
      ⟨.returns verdict, calls, marks'⟩ := by
  induction steps generalizing thread marks calls verdict marks' with
  | zero => cases ok
  | succ steps ih =>
      cases step : machine.guardedStep text marks thread with
      | error fault => simp [explore_fault step] at ok
      | ok asked =>
          cases asked with
          | fail =>
              rw [explore_fail step] at ok
              cases ok
              exact .single (.fail step)
          | accept =>
              rw [explore_accept step] at ok
              cases ok
              exact .single (.accept step)
          | advance next =>
              rw [explore_advance step] at ok
              exact .head (.advance step) (ih ok)
          | fork first second =>
              obtain ⟨room, rfl, one, other, rfl, oneOk, otherOk⟩ := explore_fork_eq_ok step ok
              refine .head (.fork step room) (.trans (ih oneOk) ?_)
              exact .head (descends_second step) (.tail (ih otherOk) (descends_back step))

theorem bottoms_of_explore_error {steps : Nat} {fault : Fault}
    (error : machine.explore text steps thread marks = .error fault) :
    (∃ address, fault = ⟨.endless, address⟩) ∨
      ∃ last, Relation.ReflTransGen (machine.Descends text) ⟨.follows thread, calls, marks⟩ last ∧
        machine.Bottoms text last (.error fault) := by
  induction steps generalizing thread marks calls with
  | zero => exact .inl ⟨_, (Except.error.inj error).symm⟩
  | succ steps ih =>
      have onward {after : Descent}
          (path : Relation.ReflTransGen (machine.Descends text)
            ⟨.follows thread, calls, marks⟩ after)
          (later : (∃ address, fault = ⟨.endless, address⟩) ∨
            ∃ last, Relation.ReflTransGen (machine.Descends text) after last ∧
              machine.Bottoms text last (.error fault)) :
          (∃ address, fault = ⟨.endless, address⟩) ∨
            ∃ last, Relation.ReflTransGen (machine.Descends text)
                ⟨.follows thread, calls, marks⟩ last ∧
              machine.Bottoms text last (.error fault) := by
        obtain endless | ⟨last, onward, bottoms⟩ := later
        · exact .inl endless
        · exact .inr ⟨last, path.trans onward, bottoms⟩
      cases step : machine.guardedStep text marks thread with
      | error found =>
          rw [explore_fault step] at error
          cases error
          exact .inr ⟨_, .refl, .fault step⟩
      | ok asked =>
          cases asked with
          | fail => simp [explore_fail step] at error
          | accept => simp [explore_accept step] at error
          | advance next =>
              rw [explore_advance step] at error
              exact onward (.single (.advance step)) (ih error)
          | fork first second =>
              rcases explore_fork_eq_error step error with
                ⟨full, rfl⟩ | ⟨room, failed | ⟨⟨one, oneOk⟩, failed⟩⟩
              · exact .inr ⟨_, .refl, .full step full⟩
              · exact onward (.single (.fork step room)) (ih failed)
              · have path : Relation.ReflTransGen (machine.Descends text)
                    ⟨.follows thread, calls, marks⟩
                    ⟨.follows second, .second thread one :: calls, marks.insert thread.place⟩ :=
                  .head (.fork step room)
                    ((descends_of_explore_ok oneOk).tail (descends_second step))
                exact onward path (ih failed)

theorem runDepth_eq_bind (machine : Machine) (text : Array Symbol) :
    machine.runDepth text =
      (machine.explore text (machine.pathSteps text.size) {} ∅).bind fun explored =>
        .ok explored.1 := by
  unfold runDepth
  cases machine.explore text (machine.pathSteps text.size) {} ∅ <;> rfl

theorem bottoms_of_runDepth {result : Except Fault Verdict}
    (ran : machine.runDepth text = result) :
    (∃ address, result = .error ⟨.endless, address⟩) ∨
      ∃ last, machine.DescendsTo text last ∧ machine.Bottoms text last result := by
  rw [runDepth_eq_bind] at ran
  cases explored : machine.explore text (machine.pathSteps text.size) {} ∅ with
  | error fault =>
      obtain rfl : .error fault = result := by rw [← ran, explored]; rfl
      obtain ⟨address, rfl⟩ | ends := bottoms_of_explore_error explored
      · exact .inl ⟨address, rfl⟩
      · exact .inr ends
  | ok verdict =>
      obtain rfl : .ok verdict.1 = result := by rw [← ran, explored]; rfl
      exact .inr ⟨_, descends_of_explore_ok explored, .done⟩

end Machine

end PatternMachine

import PatternMachine.Proofs.Machine.Descent

/-!
# The note on the start anchor

A thread that has passed a start anchor carries a note of it. The note decides nothing: with it and
without it, an exploration takes the same paths, leaves the same marks and takes them away again,
and comes to the same end. It only comes back in the verdict, where a match found with the note
relies on the start anchor.
-/

namespace PatternMachine

namespace Verdict

/-- The verdict, noted to rely on the start anchor if it is a match and `flag` holds. -/
def relying (flag : Bool) (verdict : Verdict) : Verdict :=
  { verdict with requiresHead := verdict.requiresHead || (verdict.matched && flag) }

theorem merge_relying (flag : Bool) (first second : Verdict) :
    (first.relying flag).merge (second.relying flag) = (first.merge second).relying flag := by
  obtain ⟨matched, requiresHead⟩ := first
  obtain ⟨matched', requiresHead'⟩ := second
  cases matched <;> cases matched' <;> cases flag <;> simp [merge, relying]

end Verdict

namespace Machine

variable {machine : Machine} {text : Array Symbol} {thread : Thread} {marks : Marks}

/-! ## The same exploration with the note -/

/-- An exploration with the note does what it does without, and notes it in the verdict. -/
theorem explore_relying (machine : Machine) (text : Array Symbol) (steps : Nat) (flag : Bool)
    (thread : Thread) (marks : Marks) :
    machine.explore text steps (thread.relying flag) marks =
      (machine.explore text steps thread marks).map (Prod.map (Verdict.relying flag) id) := by
  induction steps generalizing thread marks with
  | zero => rfl
  | succ steps ih =>
      have relying := machine.guardedStep_relying text marks flag thread
      cases step : machine.guardedStep text marks thread with
      | error fault =>
          rw [step] at relying
          rw [explore_fault relying, explore_fault step]
          rfl
      | ok asked =>
          rw [step] at relying
          cases asked with
          | fail =>
              rw [explore_fail relying, explore_fail step]
              rfl
          | accept =>
              rw [explore_accept relying, explore_accept step]
              rfl
          | advance next =>
              rw [explore_advance relying, explore_advance step]
              exact ih next marks
          | fork first second =>
              by_cases room : marks.size < machine.config.maxDepth
              · rw [explore_fork relying room, explore_fork step room, ih, Thread.place_relying]
                cases machine.explore text steps first (marks.insert thread.place) with
                | error fault => rfl
                | ok one =>
                    simp only [Except.map, Except.bind, Prod.map, id, ih]
                    cases machine.explore text steps second one.2 with
                    | error fault => rfl
                    | ok other => simp only [Verdict.merge_relying]
              · have full := Nat.le_of_not_lt room
                rw [explore_full relying full, explore_full step full]
                rfl

/-! ## Explorations that end -/

/-- An exploration that is not stopped for its length does the same with one more step. -/
theorem explore_succ {steps : Nat}
    (ends : ∀ address, machine.explore text steps thread marks ≠ .error ⟨.endless, address⟩) :
    machine.explore text (steps + 1) thread marks = machine.explore text steps thread marks := by
  induction steps generalizing thread marks with
  | zero => exact absurd rfl (ends thread.pc)
  | succ steps ih =>
      cases step : machine.guardedStep text marks thread with
      | error fault => rw [explore_fault step, explore_fault step]
      | ok asked =>
          cases asked with
          | fail => rw [explore_fail step, explore_fail step]
          | accept => rw [explore_accept step, explore_accept step]
          | advance next =>
              rw [explore_advance step] at ends ⊢
              rw [explore_advance step]
              exact ih ends
          | fork first second =>
              by_cases room : marks.size < machine.config.maxDepth
              · rw [explore_sides step room] at ends ⊢
                have one := ih fun address stopped => ends address (by rw [stopped]; rfl)
                rw [explore_sides step room, one]
                cases explored : machine.explore text steps first (marks.insert thread.place) with
                | error fault => rfl
                | ok found =>
                    rw [explored] at ends
                    have other := ih fun address stopped => ends address (by rw [stopped]; rfl)
                    simp only [Except.bind, other]
              · have full := Nat.le_of_not_lt room
                rw [explore_full step full, explore_full step full]

theorem explore_add {steps : Nat}
    (ends : ∀ address, machine.explore text steps thread marks ≠ .error ⟨.endless, address⟩)
    (more : Nat) :
    machine.explore text (steps + more) thread marks = machine.explore text steps thread marks := by
  induction more with
  | zero => rfl
  | succ more ih =>
      rw [← Nat.add_assoc, explore_succ (ih ▸ ends), ih]

/-- An exploration from the thread ends with the result, if it is given steps enough. -/
structure Explores (machine : Machine) (text : Array Symbol) (thread : Thread) (marks : Marks)
    (result : Except Fault (Verdict × Marks)) : Prop where
  enough : ∃ steps, machine.explore text steps thread marks = result
  ends : ∀ address, result ≠ .error ⟨.endless, address⟩

namespace Explores

variable {result other : Except Fault (Verdict × Marks)}

theorem unique (explores : machine.Explores text thread marks result)
    (explores' : machine.Explores text thread marks other) : result = other := by
  obtain ⟨⟨steps, rfl⟩, ends⟩ := explores
  obtain ⟨⟨steps', rfl⟩, ends'⟩ := explores'
  rw [← explore_add ends steps', ← explore_add ends' steps, Nat.add_comm]

theorem marks_eq {verdict : Verdict} {left : Marks}
    (explores : machine.Explores text thread marks (.ok (verdict, left))) : left = marks := by
  obtain ⟨steps, returned⟩ := explores.enough
  exact (explore_eq_ok returned).1

theorem relying (explores : machine.Explores text thread marks result) (flag : Bool) :
    machine.Explores text (thread.relying flag) marks
      (result.map (Prod.map (Verdict.relying flag) id)) := by
  obtain ⟨⟨steps, rfl⟩, ends⟩ := explores
  refine ⟨⟨steps, machine.explore_relying text steps flag thread marks⟩, fun address stopped => ?_⟩
  cases explored : machine.explore text steps thread marks with
  | error fault =>
      rw [explored] at stopped ends
      exact ends address stopped
  | ok found =>
      rw [explored] at stopped
      cases stopped

theorem of_relying {flag : Bool}
    (explores : machine.Explores text (thread.relying flag) marks result) :
    ∃ plain, machine.Explores text thread marks plain ∧
      result = plain.map (Prod.map (Verdict.relying flag) id) := by
  obtain ⟨⟨steps, rfl⟩, ends⟩ := explores
  rw [explore_relying] at ends ⊢
  refine ⟨_, ⟨⟨steps, rfl⟩, fun address stopped => ?_⟩, rfl⟩
  rw [stopped] at ends
  exact ends address rfl

end Explores

/--
The note never steers the search, and marks are taken away again. Of two explorations from one
place among the same marks, one with the note and one without, either both end or none; they fail
for the same fault or return verdicts that match alike, and with the note a match relies on the
start anchor. An exploration that returns leaves the marks as it found them, so the second side of
a split is explored among the same marks as the first.
-/
theorem explores_regardless_of_headUsed (machine : Machine) (text : Array Symbol)
    (pc offset : Int) (marks : Marks) :
    (∀ result result', machine.Explores text ⟨pc, offset, true⟩ marks result →
      machine.Explores text ⟨pc, offset, false⟩ marks result' →
      (∃ fault, result = .error fault ∧ result' = .error fault) ∨
        ∃ noted plain, result = .ok (noted, marks) ∧ result' = .ok (plain, marks) ∧
          noted.matched = plain.matched ∧
          (noted.matched = true → noted.requiresHead = true)) ∧
    ((∃ result, machine.Explores text ⟨pc, offset, true⟩ marks result) ↔
      ∃ result, machine.Explores text ⟨pc, offset, false⟩ marks result) ∧
    (∀ headUsed verdict left,
      machine.Explores text ⟨pc, offset, headUsed⟩ marks (.ok (verdict, left)) → left = marks) ∧
    ∀ headUsed first second steps,
      machine.guardedStep text marks ⟨pc, offset, headUsed⟩ = .ok (.fork first second) →
      marks.size < machine.config.maxDepth →
      machine.explore text (steps + 1) ⟨pc, offset, headUsed⟩ marks =
        (machine.explore text steps first (marks.insert ⟨pc, offset⟩)).bind fun one =>
          (machine.explore text steps second (marks.insert ⟨pc, offset⟩)).bind fun other =>
            .ok (one.1.merge other.1, marks) := by
  have noted : (⟨pc, offset, true⟩ : Thread) = Thread.relying true ⟨pc, offset, false⟩ := rfl
  refine ⟨fun result result' explores explores' => ?_, ⟨?_, ?_⟩,
    fun headUsed verdict left explores => explores.marks_eq,
    fun headUsed first second steps step room => explore_sides step room⟩
  · rw [noted] at explores
    obtain rfl := explores.unique (explores'.relying true)
    cases result' with
    | error fault => exact .inl ⟨fault, rfl, rfl⟩
    | ok found =>
        obtain ⟨plain, left⟩ := found
        obtain rfl := explores'.marks_eq
        refine .inr ⟨plain.relying true, plain, rfl, rfl, rfl, fun matched => ?_⟩
        have hit : plain.matched = true := matched
        simp [Verdict.relying, hit]
  · rintro ⟨result, explores⟩
    rw [noted] at explores
    obtain ⟨plain, ends, -⟩ := explores.of_relying
    exact ⟨plain, ends⟩
  · rintro ⟨result, explores⟩
    exact ⟨_, explores.relying true⟩

/-- A loop around a start anchor, then a letter. -/
def anchoredLoop : Machine :=
  ⟨⟨#[.split 1 3, .head, .jump 0, .literal "a", .accept]⟩, {}⟩

/-- A mark at the letter, where no path splits. -/
def letterMarked : Marks :=
  (∅ : Marks).insert ⟨3, 0⟩

theorem explores_regardless_of_headUsed_anchoredLoop :
    anchoredLoop.Explores #["a"] ⟨0, 0, true⟩ letterMarked (.ok (⟨true, true⟩, letterMarked)) ∧
      anchoredLoop.Explores #["a"] ⟨0, 0, false⟩ letterMarked
        (.ok (⟨true, false⟩, letterMarked)) ∧
      (∃ noted plain : Verdict, noted = ⟨true, true⟩ ∧ plain = ⟨true, false⟩ ∧
        noted.matched = plain.matched ∧ (noted.matched = true → noted.requiresHead = true)) ∧
      anchoredLoop.explore #["a"] 6 ⟨0, 0, true⟩ letterMarked =
        (anchoredLoop.explore #["a"] 5 ⟨1, 0, true⟩ (letterMarked.insert ⟨0, 0⟩)).bind fun one =>
          (anchoredLoop.explore #["a"] 5 ⟨3, 0, true⟩ (letterMarked.insert ⟨0, 0⟩)).bind
            fun other => .ok (one.1.merge other.1, letterMarked) := by
  have noted : anchoredLoop.Explores #["a"] ⟨0, 0, true⟩ letterMarked
      (.ok (⟨true, true⟩, letterMarked)) := ⟨⟨6, by rfl⟩, by simp⟩
  have plain : anchoredLoop.Explores #["a"] ⟨0, 0, false⟩ letterMarked
      (.ok (⟨true, false⟩, letterMarked)) := ⟨⟨6, by rfl⟩, by simp⟩
  have forks : anchoredLoop.guardedStep #["a"] letterMarked ⟨0, 0, true⟩ =
      .ok (.fork ⟨1, 0, true⟩ ⟨3, 0, true⟩) := by rfl
  obtain ⟨alike, -, -, sides⟩ :=
    explores_regardless_of_headUsed anchoredLoop #["a"] 0 0 letterMarked
  refine ⟨noted, plain, ?_, sides true _ _ 5 forks (by decide +kernel)⟩
  rcases alike _ _ noted plain with ⟨fault, failed, -⟩ | ⟨one, other, ended, ended', same, used⟩
  · cases failed
  · cases ended
    cases ended'
    exact ⟨_, _, rfl, rfl, same, used⟩

end Machine

end PatternMachine

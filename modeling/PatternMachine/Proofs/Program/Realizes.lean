import PatternMachine.Proofs.Pattern.Meaning
import PatternMachine.Proofs.Program.Region

/-!
# Code realizes meaning

Two addresses of a program realize a meaning when the paths from the first to the second, and
those that accept before, are the outcomes of the meaning. Instructions realize the meanings of
the smallest patterns, and composition, union and iteration are realized by code that is put
together in the same way. Iteration is by the number of moves that a path has left.
-/

namespace PatternMachine

/-- A path that comes to the outcome at the address accepts with the given note. -/
def Outcome.ResumesIn (machine : Machine) (text : Array Symbol) (address : Int) (flag : Bool)
    (steps : Nat) : Outcome → Prop
  | .goes offset used => ∃ fewer ≤ steps, machine.AcceptsIn text fewer ⟨address, offset, used⟩ flag
  | .ends used => used = flag

theorem Outcome.ResumesIn.mono {machine : Machine} {text : Array Symbol} {address : Int}
    {flag : Bool} {fewer steps : Nat} {outcome : Outcome} (le : fewer ≤ steps)
    (resumes : outcome.ResumesIn machine text address flag fewer) :
    outcome.ResumesIn machine text address flag steps := by
  cases outcome with
  | goes offset used =>
      obtain ⟨least, less, path⟩ := resumes
      exact ⟨least, less.trans le, path⟩
  | ends used => exact resumes

/-- The code between two addresses does in the text what the meaning says. -/
structure Machine.Realizes (machine : Machine) (text : Array Symbol) (a b : Int)
    (meaning : Meaning) : Prop where
  within {offset offset' : Nat} {used used' : Bool} (inside : offset ≤ text.size)
    (goes : meaning offset used (.goes offset' used')) : offset' ≤ text.size
  sound {steps offset : Nat} {used flag : Bool} (inside : offset ≤ text.size)
    (path : machine.AcceptsIn text steps ⟨a, offset, used⟩ flag) :
    ∃ outcome, meaning offset used outcome ∧ outcome.ResumesIn machine text b flag steps
  complete (steps : Nat) {offset : Nat} {used flag : Bool} {outcome : Outcome}
    (means : meaning offset used outcome) (resumes : outcome.ResumesIn machine text b flag steps) :
    ∃ more, machine.AcceptsIn text more ⟨a, offset, used⟩ flag

namespace Machine.Realizes

open Meaning

variable {machine : Machine} {text : Array Symbol} {a b c d : Int} {first second once : Meaning}

/-! ## Instructions -/

theorem of_step {test : Nat → Prop} [DecidablePred test] {moved : Nat → Nat}
    {noted : Bool → Bool}
    (step : ∀ (offset : Nat) (used : Bool), machine.step text ⟨a, offset, used⟩ =
      if test offset then .ok (.advance ⟨b, moved offset, noted used⟩) else .ok .fail)
    (inside : ∀ offset ≤ text.size, test offset → moved offset ≤ text.size) :
    machine.Realizes text a b fun offset used outcome =>
      test offset ∧ outcome = .goes (moved offset) (noted used) where
  within := by
    rintro offset _ used _ within ⟨holds, same⟩
    cases same
    exact inside offset within holds
  sound := by
    intro steps offset used flag within path
    have step := step offset used
    split at step
    · rename_i holds
      obtain ⟨fewer, less, path⟩ := path.of_advance step
      exact ⟨_, ⟨holds, rfl⟩, fewer, less.le, path⟩
    · exact (path.of_fail step).elim
  complete := by
    rintro steps offset used flag _ ⟨holds, rfl⟩ ⟨fewer, -, path⟩
    have step := step offset used
    rw [if_pos holds] at step
    exact ⟨fewer + 1, .move (.advance step) path⟩

theorem of_jump (fetched : machine.program.fetch? a = some (.jump b)) :
    machine.Realizes text a b fun offset used outcome => outcome = .goes offset used := by
  have realizes : machine.Realizes text a b fun offset used outcome =>
      True ∧ outcome = .goes offset used :=
    of_step (fun offset used => by simpa using step_jump fetched) fun _ within _ => within
  simpa only [true_and] using realizes

theorem of_matchEnd (fetched : machine.program.fetch? a = some .matchEnd) :
    machine.Realizes text a b fun offset used outcome =>
      offset = text.size ∧ outcome = .ends used where
  within := by rintro _ _ _ _ _ ⟨-, same⟩; cases same
  sound := by
    intro steps offset used flag within path
    have step : machine.step text ⟨a, offset, used⟩ = _ := step_matchEnd fetched
    split at step
    · rename_i ended
      exact ⟨_, ⟨Nat.le_antisymm within ended, rfl⟩, (path.of_accept step).symm⟩
    · exact (path.of_fail step).elim
  complete := by
    rintro steps offset used flag _ ⟨rfl, rfl⟩ rfl
    have step : machine.step text ⟨a, text.size, used⟩ = _ := step_matchEnd fetched
    rw [if_pos (Nat.le_refl _)] at step
    exact ⟨0, .accept step⟩

/-! ## Composition, union and iteration -/

protected theorem skip : machine.Realizes text a a fun offset used outcome =>
    outcome = .goes offset used where
  within := by rintro _ _ _ _ within ⟨⟩; exact within
  sound := fun _ path => ⟨_, rfl, _, Nat.le_refl _, path⟩
  complete := by
    rintro steps offset used flag _ rfl ⟨fewer, -, path⟩
    exact ⟨fewer, path⟩

protected theorem append (one : machine.Realizes text a b first)
    (other : machine.Realizes text b c second) :
    machine.Realizes text a c (Then first second) where
  within := by
    rintro _ _ _ _ within ⟨front, back⟩
    exact other.within (one.within within front) back
  sound := by
    intro steps offset used flag within path
    obtain ⟨outcome, front, resumes⟩ := one.sound within path
    cases outcome with
    | goes offset' used' =>
        obtain ⟨fewer, le, path⟩ := resumes
        obtain ⟨outcome, back, resumes⟩ := other.sound (one.within within front) path
        exact ⟨outcome, .goes front back, resumes.mono le⟩
    | ends flag' => exact ⟨_, .ends front, resumes⟩
  complete := by
    rintro steps offset used flag outcome (⟨front, back⟩ | front) resumes
    · obtain ⟨more, path⟩ := other.complete steps back resumes
      exact one.complete more front ⟨more, Nat.le_refl more, path⟩
    · exact one.complete steps front resumes

protected theorem union (fetched : machine.program.fetch? a = some (.split b c))
    (one : machine.Realizes text b d first) (other : machine.Realizes text c d second) :
    machine.Realizes text a d fun offset used outcome =>
      first offset used outcome ∨ second offset used outcome where
  within := by
    rintro _ _ _ _ within (front | back)
    · exact one.within within front
    · exact other.within within back
  sound := by
    intro steps offset used flag within path
    obtain ⟨fewer, less, path⟩ := path.of_fork (step_split fetched)
    rcases path with path | path
    · obtain ⟨outcome, front, resumes⟩ := one.sound within path
      exact ⟨outcome, .inl front, resumes.mono less.le⟩
    · obtain ⟨outcome, back, resumes⟩ := other.sound within path
      exact ⟨outcome, .inr back, resumes.mono less.le⟩
  complete := by
    rintro steps offset used flag outcome (front | back) resumes
    · obtain ⟨more, path⟩ := one.complete steps front resumes
      exact ⟨more + 1, .move (.fork (step_split fetched) (.inl rfl)) path⟩
    · obtain ⟨more, path⟩ := other.complete steps back resumes
      exact ⟨more + 1, .move (.fork (step_split fetched) (.inr rfl)) path⟩

protected theorem iterated (fetched : machine.program.fetch? a = some (.split b c))
    (round : machine.Realizes text b a once) : machine.Realizes text a c (Iterated once) where
  within := by
    intro offset offset' used used' within rounds
    generalize last : Outcome.goes offset' used' = outcome at rounds
    induction rounds with
    | stop =>
        cases last
        exact within
    | again first _ ih => exact ih (round.within within first) last
    | ends _ => cases last
  sound := by
    intro steps
    induction steps using Nat.strongRecOn with
    | ind steps ih =>
        intro offset used flag within path
        obtain ⟨fewer, less, path⟩ := path.of_fork (step_split fetched)
        rcases path with path | path
        · obtain ⟨outcome, first, resumes⟩ := round.sound within path
          cases outcome with
          | goes offset' used' =>
              obtain ⟨least, le, path⟩ := resumes
              obtain ⟨outcome, rounds, resumes⟩ :=
                ih least (by omega) (round.within within first) path
              exact ⟨outcome, .again first rounds, resumes.mono (by omega)⟩
          | ends flag' => exact ⟨_, .ends first, resumes⟩
        · exact ⟨_, .stop, fewer, less.le, path⟩
  complete := by
    intro steps offset used flag outcome rounds resumes
    have enter {offset : Nat} {used : Bool} {outcome : Outcome} (steps : Nat)
        (first : once offset used outcome)
        (resumes : outcome.ResumesIn machine text a flag steps) :
        ∃ more, machine.AcceptsIn text more ⟨a, offset, used⟩ flag := by
      obtain ⟨more, path⟩ := round.complete steps first resumes
      exact ⟨more + 1, .move (.fork (step_split fetched) (.inl rfl)) path⟩
    induction rounds with
    | stop =>
        obtain ⟨fewer, -, path⟩ := resumes
        exact ⟨fewer + 1, .move (.fork (step_split fetched) (.inr rfl)) path⟩
    | again first _ ih =>
        obtain ⟨more, path⟩ := ih resumes
        exact enter more first ⟨more, Nat.le_refl more, path⟩
    | ends last => exact enter steps last resumes

/-! ## Patterns -/

/-- A region that holds a pattern realizes its meaning. -/
theorem of_holds (roomy : machine.Roomy text) {pattern : Pattern}
    (holds : machine.program.Holds pattern a b) :
    machine.Realizes text a b (pattern.means text) := by
  induction holds with
  | literal fetched =>
      refine of_step (fun _ _ => roomy.step_literal fetched) fun offset _ found => ?_
      exact (Array.getElem?_eq_some_iff.mp found).1
  | wildcard fetched =>
      exact of_step (fun _ _ => roomy.step_any fetched) fun offset _ inside => inside
  | lineStart fetched =>
      exact of_step (fun _ _ => roomy.step_head fetched) fun offset within _ => within
  | lineEnd fetched => exact of_matchEnd fetched
  | nil => exact .skip
  | cons _ _ ihOne ihOthers => exact ihOne.append ihOthers
  | alternative split _ exit _ ihOne ihOther =>
      have one := ihOne.append (of_jump exit)
      rw [then_skip] at one
      exact .union split one ihOther
  | oneOrMore _ split ih => exact ih.append (.iterated split ih)
  | zeroOrMore split _ back ih =>
      have round := ih.append (of_jump back)
      rw [then_skip] at round
      exact .iterated split round
  | @zeroOrOne body a b split once ih =>
      have optional := Realizes.union split ih .skip
      simpa only [Pattern.means, or_comm] using optional

end Machine.Realizes

end PatternMachine

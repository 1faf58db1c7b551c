import Mathlib.Data.List.ProdSigma
import PatternMachine.Proofs.Machine.Walk

/-!
# The steps allowed to a depth-first run

A depth-first run is stopped for its length only if it would go on forever, whatever its program.
The level of a thread among marks is its offset and the number of marks together. It rises when a
path consumes or splits, and a path that comes twice to one address at one level has gone round a
circle of jumps and start anchors, from which there is no way out. So a path that ends has at most
as many steps as there are addresses at all levels.
-/

namespace PatternMachine

namespace Machine

variable {machine : Machine} {text : Array Symbol} {marks : Marks} {thread next : Thread}
  {calls : List Call}

/-! ## Circles -/

/-- Threads at the first place advance to the second without consuming. -/
def IdlesAt (machine : Machine) (text : Array Symbol) (place place' : Place) : Prop :=
  place'.offset = place.offset ∧ ∃ thread next : Thread, thread.place = place ∧
    next.place = place' ∧ machine.step text thread = .ok (.advance next)

/-- The place is on a circle of jumps and start anchors. -/
def Circles (machine : Machine) (text : Array Symbol) (place : Place) : Prop :=
  Relation.TransGen (machine.IdlesAt text) place place

theorem exists_advance_of_place {other : Thread} (same : thread.place = other.place)
    (step : machine.step text other = .ok (.advance next)) :
    ∃ next', machine.step text thread = .ok (.advance next') ∧ next'.place = next.place := by
  obtain ⟨plain, otherStep, threadStep⟩ := step_of_place machine text same
  rw [step] at otherStep
  cases plain with
  | error fault => cases otherStep
  | ok plain =>
      cases plain <;> cases otherStep
      exact ⟨_, threadStep, rfl⟩

theorem acc_of_path {State : Type} {step : State → State → Prop} {state later : State}
    (finite : Acc (fun after before => step before after) state)
    (path : Relation.ReflTransGen step state later) :
    Acc (fun after before => step before after) later := by
  induction path with
  | refl => exact finite
  | tail _ goes ih => exact ih.inv goes

/-- From a circle a descent goes on forever. -/
theorem not_circles {descent : Descent}
    (finite : Acc (fun after before => machine.Descends text before after) descent)
    (here : descent = ⟨.follows thread, calls, marks⟩) :
    ¬ machine.Circles text thread.place := by
  induction finite generalizing thread with
  | intro descent _ ih =>
      subst here
      intro circles
      obtain ⟨place, ⟨same, other, next, at_, onward, step⟩, back⟩ :=
        Relation.TransGen.head'_iff.mp circles
      obtain ⟨next', step', place'⟩ := exists_advance_of_place at_.symm step
      have again : machine.Circles text next'.place := by
        rw [place', onward]
        exact Relation.TransGen.tail' back ⟨same, other, next, at_, onward, step⟩
      exact ih _ (.advance (guardedStep_eq_advance_iff.mpr step')) rfl again

/-! ## Trails -/

/-- The number of levels that a path over a text can rise to, from zero on. -/
def levels (machine : Machine) (text : Array Symbol) : Nat :=
  text.size + machine.nesting text.size + 1

/--
The addresses that a path has come through before it came to the place at the level, each with
the level at which it did.
-/
structure Trail (machine : Machine) (text : Array Symbol) (level : Nat) (place : Place)
    (seen : List (Nat × Int)) : Prop where
  nodup : seen.Nodup
  fits : ∀ key ∈ seen, key.1 < machine.levels text ∧ 0 ≤ key.2 ∧ key.2 < machine.program.size
  behind : ∀ key ∈ seen, key.1 < level ∨ key.1 = level ∧
    Relation.TransGen (machine.IdlesAt text) ⟨key.2, place.offset⟩ place

namespace Trail

variable {level : Nat} {place : Place} {seen : List (Nat × Int)}

theorem nil : machine.Trail text level place [] :=
  ⟨List.nodup_nil, fun _ mem => absurd mem List.not_mem_nil,
    fun _ mem => absurd mem List.not_mem_nil⟩

theorem length_le (trail : machine.Trail text level place seen) :
    seen.length ≤ machine.levels text * machine.program.size := by
  let addresses : List Int := (List.range machine.program.size).map fun index : Nat => (index : Int)
  have subset : seen ⊆ List.range (machine.levels text) ×ˢ addresses := by
    rintro ⟨height, address⟩ mem
    obtain ⟨low, nonneg, inside⟩ := trail.fits _ mem
    refine List.mem_product.mpr ⟨List.mem_range.mpr low, List.mem_map.mpr ⟨address.toNat, ?_, ?_⟩⟩
    · simp only at inside nonneg
      exact List.mem_range.mpr (by omega)
    · exact Int.toNat_of_nonneg nonneg
  have length := (trail.nodup.subperm subset).length_le
  rw [List.length_product, List.length_map, List.length_range, List.length_range] at length
  exact length

/-- A path that is on no circle is for the first time at its address and level. -/
theorem not_mem (trail : machine.Trail text level place seen)
    (straight : ¬ machine.Circles text place) : (level, place.address) ∉ seen := by
  intro mem
  rcases trail.behind _ mem with lower | ⟨-, circle⟩
  · exact absurd lower (Nat.lt_irrefl level)
  · exact straight circle

theorem cons (trail : machine.Trail text level place seen)
    (straight : ¬ machine.Circles text place) (low : level < machine.levels text)
    (inside : 0 ≤ place.address ∧ place.address < machine.program.size) {level' : Nat}
    {place' : Place}
    (onward : level < level' ∨ level = level' ∧ machine.IdlesAt text place place') :
    machine.Trail text level' place' ((level, place.address) :: seen) where
  nodup := List.nodup_cons.mpr ⟨trail.not_mem straight, trail.nodup⟩
  fits := List.forall_mem_cons.mpr ⟨⟨low, inside⟩, trail.fits⟩
  behind := by
    refine List.forall_mem_cons.mpr ⟨?_, fun key mem => ?_⟩
    · rcases onward with higher | ⟨same, idles⟩
      · exact .inl higher
      · refine .inr ⟨same, .single ?_⟩
        rw [idles.1]
        exact idles
    · rcases onward with higher | ⟨rfl, idles⟩
      · refine .inl ?_
        rcases trail.behind key mem with lower | ⟨same, -⟩ <;> omega
      · rw [idles.1]
        exact (trail.behind key mem).imp id fun ⟨same, path⟩ => ⟨same, path.tail idles⟩

end Trail

/-! ## Levels -/

theorem level_lt_levels (within : thread.Within text) (fits : machine.MarksFit text marks) :
    thread.offset.toNat + marks.size < machine.levels text := by
  have inText := within.le
  have few := fits.size_le
  unfold levels
  omega

theorem rises_or_idles (within : thread.Within text)
    (step : machine.step text thread = .ok (.advance next)) (count : Nat) :
    thread.offset.toNat + count < next.offset.toNat + count ∨
      thread.offset.toNat + count = next.offset.toNat + count ∧
        machine.IdlesAt text thread.place next.place := by
  rcases step_eq_advance step with ⟨-, rfl⟩ | ⟨-, same, -⟩
  · have nonneg := within.nonneg
    exact .inl (by simp only; omega)
  · exact .inr ⟨by rw [same], same, thread, next, rfl, rfl, step⟩

/-! ## Runs -/

/-- An exploration is not stopped for its length where a descent does not go on forever. -/
theorem explore_ne_endless {steps : Nat} {seen : List (Nat × Int)}
    (finite : Acc (fun after before => machine.Descends text before after)
      ⟨.follows thread, calls, marks⟩)
    (within : thread.Within text) (fits : machine.MarksFit text marks)
    (trail : machine.Trail text (thread.offset.toNat + marks.size) thread.place seen)
    (enough : machine.levels text * machine.program.size < seen.length + steps) (address : Int) :
    machine.explore text steps thread marks ≠ .error ⟨.endless, address⟩ := by
  induction steps generalizing thread calls marks seen with
  | zero =>
      have few := trail.length_le
      omega
  | succ steps ih =>
      have straight := not_circles finite rfl
      have low := level_lt_levels within fits
      cases step : machine.guardedStep text marks thread with
      | error fault =>
          have reason := (step_eq_error (guardedStep_eq_error_iff.mp step)).2
          rw [explore_fault step]
          rintro same
          cases same
          simp at reason
      | ok asked =>
          obtain ⟨instruction, fetched⟩ := fetch?_of_guardedStep step
          have inside := Program.bounds_of_fetch? fetched
          cases asked with
          | fail => simp [explore_fail step]
          | accept => simp [explore_accept step]
          | advance next =>
              have plain := guardedStep_eq_advance_iff.mp step
              have onward := rises_or_idles within plain marks.size
              rw [explore_advance step]
              exact ih (finite.inv (.advance step)) (within_advance within plain) fits
                (trail.cons straight low inside onward) (by simp only [List.length_cons]; omega)
          | fork first second =>
              obtain ⟨plain, unmarked⟩ := guardedStep_eq_fork_iff.mp step
              have grown := Marks.size_insert_of_notMem unmarked
              have side {side : Thread} {calls' : List Call} (chosen : side = first ∨ side = second)
                  (reaches : Acc (fun after before => machine.Descends text before after)
                    ⟨.follows side, calls', marks.insert thread.place⟩) :
                  machine.explore text steps side (marks.insert thread.place) ≠
                    .error ⟨.endless, address⟩ := by
                have level := offset_of_fork plain chosen
                exact ih reaches (within_fork within plain chosen) (fits.insert within plain)
                  (trail.cons straight low inside (.inl (by rw [level, grown]; omega)))
                  (by simp only [List.length_cons]; omega)
              intro stopped
              rcases explore_fork_eq_error step stopped with
                ⟨-, limit⟩ | ⟨room, failed | ⟨⟨one, oneOk⟩, failed⟩⟩
              · cases limit
              · exact side (.inl rfl) (finite.inv (.fork step room)) failed
              · have finiteFirst := finite.inv (.fork step room)
                have finiteSecond := (acc_of_path finiteFirst
                  (descends_of_explore_ok oneOk)).inv (descends_second step)
                exact side (.inr rfl) finiteSecond failed

/--
A descent returns a result exactly if that is the result of the run and the run was not stopped
for its length.
-/
theorem walk_depthFirst_returns_iff {result : Except Fault Verdict} :
    (machine.walk text .depthFirst).Returns result ↔
      machine.run .depthFirst text = result ∧ ∀ address, result ≠ .error ⟨.endless, address⟩ := by
  constructor
  · intro returns
    have enough : machine.levels text * machine.program.size <
        ([] : List (Nat × Int)).length + machine.pathSteps text.size := by
      rw [pathSteps, Nat.mul_succ, levels, List.length_nil]
      omega
    have finite : Acc (fun after before => machine.Descends text before after)
        ⟨.follows {}, [], ∅⟩ := returns.finite
    have explored := explore_ne_endless finite (Thread.within_start text) MarksFit.empty .nil
      enough
    have ends (address : Int) : machine.run .depthFirst text ≠ .error ⟨.endless, address⟩ := by
      have explored := explored address
      rw [run, runDepth_eq_bind]
      cases found : machine.explore text (machine.pathSteps text.size) {} ∅ with
      | error fault =>
          rw [found] at explored
          simpa [Except.bind] using explored
      | ok verdict => simp [Except.bind]
    have same := (machine.walk_deterministic text .depthFirst).eq_of_returns
      (walk_returns_run ends) returns
    exact ⟨same, same ▸ ends⟩
  · rintro ⟨rfl, ends⟩
    exact walk_returns_run ends

end Machine

end PatternMachine

import Mathlib.Data.Finset.Card
import Mathlib.Data.Finset.Range
import Mathlib.Data.List.Perm.Subperm
import PatternMachine.Machine.Run
import PatternMachine.Proofs.Machine.Search

/-!
# Runs end

A program without a cycle of jumps and start anchors cannot pass control forever without splitting
or consuming. A path consumes at most the whole text and splits at most once at each place, and
between two of these events it idles for at most as many steps as there are instructions; a
breadth-first run adds up such paths, two for each mark. So the steps that both evaluators allow
are never used up.
-/

namespace PatternMachine

variable {machine : Machine} {text : Array Symbol} {marks : Marks}

/-! ## Idling -/

namespace Program

theorem fetch?_eq_some_iff {program : Program} {address : Int} {instruction : Instruction} :
    program.fetch? address = some instruction ↔
      ∃ index : Nat, address = index ∧ program.code[index]? = some instruction := by
  unfold fetch?
  constructor
  · intro fetched
    split at fetched
    · cases fetched
    · exact ⟨address.toNat, by omega, fetched⟩
  · rintro ⟨index, rfl, found⟩
    rw [if_neg (by omega)]
    exact found

/-- No cycle of control consists of jumps and start anchors alone. -/
def NoIdleCycle (program : Program) : Prop :=
  ∀ address, ¬ Relation.TransGen program.Idles address address

/-- Steps that go forward or land on a marked address, and start at no such one, close no cycle. -/
theorem no_cycle_of_forward {step : Int → Int → Prop} {marked : Int → Prop}
    (forward : ∀ a b, step a b → a < b ∨ marked b) (unmarked : ∀ a b, step a b → ¬ marked a)
    (address : Int) : ¬ Relation.TransGen step address address := by
  have beyond {b : Int} (path : Relation.TransGen step address b) : address < b ∨ marked b := by
    induction path with
    | single taken => exact forward _ _ taken
    | tail _ taken ih =>
        rcases ih with less | mark
        · exact (forward _ _ taken).imp less.trans id
        · exact absurd mark (unmarked _ _ taken)
  intro cycle
  rcases beyond cycle with less | mark
  · exact absurd less (Int.lt_irrefl address)
  · obtain ⟨next, taken, -⟩ := Relation.TransGen.head'_iff.mp cycle
    exact unmarked _ _ taken mark

theorem NoIdleCycle.of_jumps {program : Program}
    (jumps : ∀ a b, program.fetch? a = some (.jump b) →
      a < b ∨ ∃ first second, program.fetch? b = some (.split first second)) :
    program.NoIdleCycle := by
  have forward (a b : Int) (idles : program.Idles a b) :
      a < b ∨ ∃ first second, program.fetch? b = some (.split first second) := by
    rcases idles with jump | ⟨-, rfl⟩
    · exact jumps a b jump
    · exact .inl (Int.lt_succ a)
  refine no_cycle_of_forward forward fun a b idles => ?_
  rintro ⟨first, second, split⟩
  rcases idles with jump | ⟨head, -⟩ <;> simp_all

open Classical in
/-- The number of instructions that control can come to from the address by idling. -/
noncomputable def idleRank (program : Program) (address : Int) : Nat :=
  ((Finset.range program.size).filter fun index : Nat =>
    Relation.ReflTransGen program.Idles address (index : Int)).card

theorem idleRank_le (program : Program) (address : Int) :
    program.idleRank address ≤ program.size := by
  classical
  unfold idleRank
  exact (Finset.card_filter_le _ _).trans_eq (Finset.card_range program.size)

theorem idleRank_lt {program : Program} (acyclic : program.NoIdleCycle) {a b : Int}
    (idles : program.Idles a b) : program.idleRank b < program.idleRank a := by
  classical
  unfold idleRank
  apply Finset.card_lt_card
  refine ⟨fun index member => ?_, fun contains => ?_⟩
  · simp only [Finset.mem_filter] at member ⊢
    exact ⟨member.1, .head idles member.2⟩
  · have here : ∃ index : Nat, a = index ∧ index < program.size := by
      rcases idles with fetched | ⟨fetched, -⟩ <;>
      · obtain ⟨index, same, found⟩ := fetch?_eq_some_iff.mp fetched
        exact ⟨index, same, (Array.getElem?_eq_some_iff.mp found).1⟩
    obtain ⟨index, rfl, inside⟩ := here
    have member := contains (Finset.mem_filter.mpr ⟨Finset.mem_range.mpr inside, .refl⟩)
    have back := (Finset.mem_filter.mp member).2
    exact acyclic index (Relation.TransGen.head' idles back)

def splitAddresses (program : Program) : List Int :=
  (program.code.toList.zipIdx.filter fun entry => entry.1.isSplit).map fun entry => (entry.2 : Int)

theorem length_splitAddresses (program : Program) :
    program.splitAddresses.length = program.splits := by
  have split_fst : (fun entry : Instruction × Nat => entry.1.isSplit) =
      Instruction.isSplit ∘ Prod.fst := rfl
  rw [splitAddresses, List.length_map, ← List.countP_eq_length_filter, split_fst,
    ← List.countP_map, List.zipIdx_map_fst, splits, Array.countP_toList]

theorem mem_splitAddresses {program : Program} {address first second : Int}
    (fetched : program.fetch? address = some (.split first second)) :
    address ∈ program.splitAddresses := by
  obtain ⟨index, rfl, found⟩ := fetch?_eq_some_iff.mp fetched
  refine List.mem_map.mpr ⟨(.split first second, index), List.mem_filter.mpr ⟨?_, rfl⟩, rfl⟩
  rw [List.mem_zipIdx_iff_getElem?]
  simpa using found

end Program

/-! ## Threads and marks within a text -/

structure Thread.Within (text : Array Symbol) (thread : Thread) : Prop where
  nonneg : 0 ≤ thread.offset
  le : thread.offset ≤ text.size

theorem Thread.within_start (text : Array Symbol) : Thread.Within text {} :=
  ⟨Int.le_refl 0, Int.natCast_nonneg text.size⟩

namespace Machine

theorem within_advance {thread next : Thread} (within : thread.Within text)
    (step : machine.step text thread = .ok (.advance next)) : next.Within text := by
  obtain ⟨nonneg, le⟩ := within
  rcases step_eq_advance step with ⟨inside, rfl⟩ | ⟨-, same, -⟩
  · exact ⟨by simp only; omega, by simp only; omega⟩
  · exact ⟨by omega, by omega⟩

theorem within_fork {thread first second side : Thread} (within : thread.Within text)
    (step : machine.step text thread = .ok (.fork first second))
    (chosen : side = first ∨ side = second) : side.Within text := by
  obtain ⟨-, firstEq, secondEq⟩ := step_eq_fork step
  rcases chosen with rfl | rfl
  · rw [firstEq]
    exact ⟨within.nonneg, within.le⟩
  · rw [secondEq]
    exact ⟨within.nonneg, within.le⟩

def MarksFit (machine : Machine) (text : Array Symbol) (marks : Marks) : Prop :=
  ∀ place ∈ marks, place.address ∈ machine.program.splitAddresses ∧
    0 ≤ place.offset ∧ place.offset ≤ text.size

namespace MarksFit

theorem empty : machine.MarksFit text ∅ :=
  fun _ mem => absurd mem Std.ExtTreeSet.not_mem_empty

theorem insert {thread first second : Thread} (fits : machine.MarksFit text marks)
    (within : thread.Within text) (step : machine.step text thread = .ok (.fork first second)) :
    machine.MarksFit text (marks.insert thread.place) := by
  intro place mem
  rcases Marks.mem_insert.mp mem with rfl | old
  · exact ⟨Program.mem_splitAddresses (step_eq_fork step).1, within.nonneg, within.le⟩
  · exact fits place old

theorem size_le (fits : machine.MarksFit text marks) :
    marks.size ≤ machine.nesting text.size := by
  let places : List Place := (List.range (text.size + 1)).flatMap fun offset : Nat =>
    machine.program.splitAddresses.map fun address => ⟨address, (offset : Int)⟩
  have length : places.length = machine.nesting text.size := by
    simp [places, nesting, List.length_flatMap, Program.length_splitAddresses]
  have nodup : marks.toList.Nodup :=
    Std.ExtTreeSet.distinct_toList.imp fun apart same =>
      apart (Std.LawfulEqCmp.compare_eq_iff_eq.mpr same)
  have subset : marks.toList ⊆ places := by
    intro place mem
    obtain ⟨address, nonneg, le⟩ := fits place (Std.ExtTreeSet.mem_toList.mp mem)
    have inside : place.offset.toNat ∈ List.range (text.size + 1) :=
      List.mem_range.mpr (by omega)
    refine List.mem_flatMap.mpr ⟨_, inside, List.mem_map.mpr ⟨_, address, ?_⟩⟩
    rw [Int.toNat_of_nonneg nonneg]
  rw [← Std.ExtTreeSet.length_toList, ← length]
  exact (nodup.subperm subset).length_le

theorem size_lt {thread first second : Thread} (fits : machine.MarksFit text marks)
    (within : thread.Within text) (step : machine.step text thread = .ok (.fork first second))
    (unmarked : thread.place ∉ marks) : marks.size < machine.nesting text.size := by
  have room := (fits.insert within step).size_le
  rw [Marks.size_insert_of_notMem unmarked] at room
  exact room

end MarksFit

/-! ## Potentials -/

theorem weighted_lt {major major' minor minor' weight : Nat} (less : major' < major)
    (bound : minor' < weight) : major' * weight + minor' < major * weight + minor := by
  calc major' * weight + minor'
      < major' * weight + weight := Nat.add_lt_add_left bound _
    _ = (major' + 1) * weight := (Nat.succ_mul major' weight).symm
    _ ≤ major * weight := Nat.mul_le_mul_right _ less
    _ ≤ major * weight + minor := Nat.le_add_right _ _

/-- A bound on the steps of a path from the thread to its next split. -/
noncomputable def threadPotential (machine : Machine) (length : Nat) (thread : Thread) : Nat :=
  (length - thread.offset.toNat) * (machine.program.size + 1) +
    machine.program.idleRank thread.pc

theorem threadPotential_advance (acyclic : machine.program.NoIdleCycle) {thread next : Thread}
    (within : thread.Within text) (step : machine.step text thread = .ok (.advance next)) :
    machine.threadPotential text.size next < machine.threadPotential text.size thread := by
  obtain ⟨nonneg, le⟩ := within
  rcases step_eq_advance step with ⟨inside, rfl⟩ | ⟨idles, same, -⟩
  · exact weighted_lt (by simp only; omega)
      (Nat.lt_succ_of_le (machine.program.idleRank_le _))
  · rw [threadPotential, threadPotential, same]
    exact Nat.add_lt_add_left (Program.idleRank_lt acyclic idles) _

/-- A side of a fork stays at its offset, so its potential exceeds that of the fork by little. -/
theorem threadPotential_fork {thread first second side : Thread}
    (step : machine.step text thread = .ok (.fork first second))
    (chosen : side = first ∨ side = second) :
    machine.threadPotential text.size side ≤
      machine.threadPotential text.size thread + machine.program.size := by
  have rank := machine.program.idleRank_le side.pc
  rw [threadPotential, threadPotential, offset_of_fork step chosen]
  omega

theorem threadPotential_lt (machine : Machine) (length : Nat) (thread : Thread) :
    machine.threadPotential length thread < (length + 1) * (machine.program.size + 1) := by
  have rank := machine.program.idleRank_le thread.pc
  have consumed : (length - thread.offset.toNat) * (machine.program.size + 1) ≤
      length * (machine.program.size + 1) := Nat.mul_le_mul_right _ (Nat.sub_le _ _)
  rw [threadPotential, Nat.succ_mul]
  omega

/-! ## Depth-first runs -/

/-- A bound on the steps of a path from the thread among the marks. -/
noncomputable def pathPotential (machine : Machine) (length : Nat) (marks : Marks)
    (thread : Thread) : Nat :=
  (machine.nesting length - marks.size) * (machine.program.size + 1) +
    machine.threadPotential length thread

theorem pathPotential_fork {thread first second side : Thread} (within : thread.Within text)
    (fits : machine.MarksFit text marks) (unmarked : thread.place ∉ marks)
    (step : machine.step text thread = .ok (.fork first second))
    (chosen : side = first ∨ side = second) :
    machine.pathPotential text.size (marks.insert thread.place) side <
      machine.pathPotential text.size marks thread := by
  have room := fits.size_lt within step unmarked
  have few := threadPotential_fork step chosen
  have grown := Marks.size_insert_of_notMem unmarked
  have fewer : machine.nesting text.size - marks.size =
      (machine.nesting text.size - (marks.size + 1)) + 1 := by omega
  rw [pathPotential, pathPotential, grown, fewer, Nat.succ_mul]
  omega

/--
An exploration with enough steps merges its leaves, unless the limit on nesting is too low for
the text.
-/
theorem explore_total (acyclic : machine.program.NoIdleCycle) {steps : Nat} {thread : Thread}
    {marks : Marks} (within : thread.Within text) (fits : machine.MarksFit text marks)
    (enough : machine.pathPotential text.size marks thread < steps) :
    ∃ leaves, machine.HasLeaves text marks thread leaves ∧
      (machine.explore text steps thread marks = (Leaf.merged leaves).map (·, marks) ∨
        machine.config.maxDepth < machine.nesting text.size ∧
          ∃ address, machine.explore text steps thread marks = .error ⟨.depthLimit, address⟩) := by
  induction steps generalizing thread marks with
  | zero => exact absurd enough (Nat.not_lt_zero _)
  | succ steps ih =>
      cases step : machine.guardedStep text marks thread with
      | error fault => exact ⟨_, .fault step, .inl (explore_fault step)⟩
      | ok result =>
          cases result with
          | fail => exact ⟨_, .fail step, .inl (explore_fail step)⟩
          | accept => exact ⟨_, .accept step, .inl (explore_accept step)⟩
          | advance next =>
              have plain := guardedStep_eq_advance_iff.mp step
              have less := threadPotential_advance acyclic within plain
              rw [pathPotential] at enough
              obtain ⟨leaves, explored, ends⟩ :=
                ih (within_advance within plain) fits (by rw [pathPotential]; omega)
              rw [explore_advance step]
              exact ⟨leaves, .advance step explored, ends⟩
          | fork first second =>
              obtain ⟨plain, unmarked⟩ := guardedStep_eq_fork_iff.mp step
              have fits' := fits.insert within plain
              have enough' : ∀ side, side = first ∨ side = second →
                  machine.pathPotential text.size (marks.insert thread.place) side < steps :=
                fun side chosen => by
                  have less := pathPotential_fork within fits unmarked plain chosen
                  omega
              obtain ⟨left, one, oneEnds⟩ :=
                ih (within_fork within plain (.inl rfl)) fits' (enough' first (.inl rfl))
              obtain ⟨right, other, otherEnds⟩ :=
                ih (within_fork within plain (.inr rfl)) fits' (enough' second (.inr rfl))
              refine ⟨left ++ right, .fork step one other, ?_⟩
              by_cases room : marks.size < machine.config.maxDepth
              · -- Room is left here, so only the two sides can meet the limit.
                rw [explore_sides step room, Leaf.merged_append]
                rcases oneEnds with oneEnds | ⟨deep, address, limit⟩
                · rw [oneEnds]
                  cases Leaf.merged left with
                  | error fault => exact .inl rfl
                  | ok verdict =>
                      rcases otherEnds with otherEnds | ⟨deep, address, limit⟩
                      · rw [otherEnds]
                        cases Leaf.merged right with
                        | error fault => exact .inl rfl
                        | ok verdict' => exact .inl rfl
                      · exact .inr ⟨deep, address, by rw [limit]; rfl⟩
                · exact .inr ⟨deep, address, by rw [limit]; rfl⟩
              · have full := Nat.le_of_not_lt room
                rw [explore_full step full]
                exact .inr ⟨Nat.lt_of_le_of_lt full (fits.size_lt within plain unmarked), _, rfl⟩

theorem runDepth_total (acyclic : machine.program.NoIdleCycle) (text : Array Symbol) :
    ∃ leaves, machine.HasLeaves text ∅ {} leaves ∧
      (machine.runDepth text = Leaf.merged leaves ∨
        machine.config.maxDepth < machine.nesting text.size ∧
          ∃ address, machine.runDepth text = .error ⟨.depthLimit, address⟩) := by
  have enough : machine.pathPotential text.size ∅ {} < machine.pathSteps text.size := by
    have start := machine.threadPotential_lt text.size {}
    have parts : machine.pathSteps text.size =
        machine.nesting text.size * (machine.program.size + 1) +
          (text.size + 1) * (machine.program.size + 1) := by
      rw [pathSteps, ← Nat.add_mul]
      congr 1
      omega
    rw [pathPotential, parts, Std.ExtTreeSet.size_empty, Nat.sub_zero]
    omega
  obtain ⟨leaves, explored, ends⟩ :=
    explore_total acyclic (Thread.within_start text) MarksFit.empty enough
  refine ⟨leaves, explored, ?_⟩
  rw [runDepth]
  rcases ends with merged | ⟨deep, address, limit⟩
  · left
    rw [merged]
    cases Leaf.merged leaves <;> rfl
  · exact .inr ⟨deep, address, by rw [limit]⟩

/-! ## Breadth-first runs -/

/-- A bound on the steps of a run that follows the thread, then the saved ones. -/
noncomputable def runPotential (machine : Machine) (length : Nat) (marks : Marks) (saved : Nat)
    (thread : Thread) : Nat :=
  (2 * (machine.nesting length - marks.size) + saved) *
      ((length + 1) * (machine.program.size + 1)) +
    machine.threadPotential length thread

theorem follow_ends (acyclic : machine.program.NoIdleCycle) {steps : Nat} {thread : Thread}
    {saved : List Thread} {marks : Marks} (within : thread.Within text)
    (savedWithin : ∀ waiting ∈ saved, waiting.Within text) (fits : machine.MarksFit text marks)
    (enough : machine.runPotential text.size marks saved.length thread < steps) (address : Int) :
    machine.follow text steps thread saved marks ≠ .error ⟨.endless, address⟩ := by
  induction steps generalizing thread saved marks with
  | zero => exact absurd enough (Nat.not_lt_zero _)
  | succ steps ih =>
      rw [follow_succ]
      rw [runPotential] at enough
      cases step : machine.guardedStep text marks thread with
      | error fault =>
          have reason := (step_eq_error (guardedStep_eq_error_iff.mp step)).2
          rintro same
          cases same
          simp at reason
      | ok result =>
          cases result with
          | accept => simp
          | advance next =>
              have plain := guardedStep_eq_advance_iff.mp step
              have less := threadPotential_advance acyclic within plain
              exact ih (within_advance within plain) savedWithin fits (by rw [runPotential]; omega)
          | fail =>
              cases saved with
              | nil => simp [resume]
              | cons next rest =>
                  obtain ⟨nextWithin, restWithin⟩ := List.forall_mem_cons.mp savedWithin
                  refine ih nextWithin restWithin fits (Nat.lt_of_lt_of_le ?_
                    (Nat.le_of_lt_succ enough))
                  exact weighted_lt (by simp) (machine.threadPotential_lt _ _)
          | fork first second =>
              obtain ⟨plain, unmarked⟩ := guardedStep_eq_fork_iff.mp step
              have room := fits.size_lt within plain unmarked
              have grown := Marks.size_insert_of_notMem unmarked
              refine ih (within_fork within plain (.inl rfl))
                (List.forall_mem_cons.mpr ⟨within_fork within plain (.inr rfl), savedWithin⟩)
                (fits.insert within plain) (Nat.lt_of_lt_of_le ?_ (Nat.le_of_lt_succ enough))
              refine weighted_lt ?_ (machine.threadPotential_lt _ _)
              rw [grown, List.length_cons]
              omega

theorem runBreadth_ends (acyclic : machine.program.NoIdleCycle) (text : Array Symbol)
    (address : Int) : machine.runBreadth text ≠ .error ⟨.endless, address⟩ := by
  refine follow_ends acyclic (Thread.within_start text) (by simp) MarksFit.empty ?_ address
  have start := machine.threadPotential_lt text.size {}
  rw [runPotential, runSteps, Nat.succ_mul (2 * machine.nesting text.size)]
  simpa using start

/-- The leaves of a run and what both strategies make of them. -/
theorem run_leaves (acyclic : machine.program.NoIdleCycle)
    (shallow : machine.nesting text.size ≤ machine.config.maxDepth) :
    ∃ leaves, machine.HasLeaves text ∅ {} leaves ∧
      machine.run .depthFirst text = Leaf.merged leaves ∧
      machine.run .breadthFirst text = Leaf.first leaves := by
  obtain ⟨leaves, explored, merged | ⟨deep, -⟩⟩ := runDepth_total acyclic text
  · exact ⟨leaves, explored, merged,
      runBreadth_eq_first (runBreadth_ends acyclic text) explored⟩
  · exact absurd shallow (Nat.not_le_of_lt deep)

end Machine

end PatternMachine

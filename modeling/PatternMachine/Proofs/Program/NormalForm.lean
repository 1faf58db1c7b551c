import PatternMachine.Proofs.Machine.Strategies
import PatternMachine.Proofs.Program.Unwrapping

/-!
# The normal form runs the same

The code of a pattern and that of its normal form are explored to the same leaves but failures,
one dropped star after another. So both strategies return the same on both, notes included.
-/

namespace PatternMachine

namespace Pattern

variable {config : Config} {text : Array Symbol} {pattern pattern' : Pattern}

theorem Collapses.drops (collapses : Collapses pattern pattern') (bounded : pattern.Bounded)
    (fits : pattern.program.size ≤ config.maxAddress) (offsets : text.size ≤ config.maxOffset) :
    pattern'.program.size ≤ config.maxAddress ∧ ∃ a e,
      (Machine.mk pattern.program config).Drops (Machine.mk pattern'.program config) text a e := by
  have carries := Program.carries_program bounded
  have carries' := Program.carries_program (collapses.bounded bounded)
  obtain ⟨stop, a, e, unwrapped⟩ := collapses.unwrapped carries.holds carries'.holds
  obtain ⟨left, middle, right⟩ := unwrapped.bounds
  have size := carries.size
  have size' := carries'.size
  have fits' : pattern'.program.size ≤ config.maxAddress := by omega
  have last : pattern.program.Unwraps pattern'.program a e pattern.width :=
    .of_outside carries.accepts carries'.accepts
      ((Program.unwrap_behind (by omega) right).trans stop.symm) rfl (.inr right) (by
        simp [Instruction.successors])
  refine ⟨fits', a, e, ⟨fits, offsets⟩, ⟨fits', offsets⟩, ?_⟩
  rw [size]
  exact unwrapped.extend .empty (Int.le_refl 0) (.single last) (by omega)

theorem Collapses.exploresAs (collapses : Collapses pattern pattern') (bounded : pattern.Bounded)
    (fits : pattern.program.size ≤ config.maxAddress) (offsets : text.size ≤ config.maxOffset)
    {leaves : List Leaf}
    (explored : (Machine.mk pattern.program config).ExploresAs text ∅ {} leaves) :
    (Machine.mk pattern'.program config).ExploresAs text ∅ {} leaves := by
  have closed := (Program.carries_program bounded).closed
  obtain ⟨-, a, e, drops⟩ := collapses.drops bounded fits offsets
  obtain ⟨leaves', explored, same⟩ := explored
  have noFault := explored.noFault drops.roomy closed (Thread.within_start text) closed.start
  have start : Twins a e ((⟨a, 0⟩ : Place) ∈ (∅ : Marks)) ((⟨a + 1, 0⟩ : Place) ∈ (∅ : Marks))
      0 0 := by
    have unmarked : (⟨a + 1, 0⟩ : Place) ∉ (∅ : Marks) := Std.ExtTreeSet.not_mem_empty
    rcases Int.lt_or_eq_of_le drops.unwrapped.left with inside | rfl
    · have twins : Twins a e ((⟨a, 0⟩ : Place) ∈ (∅ : Marks))
          ((⟨a + 1, 0⟩ : Place) ∈ (∅ : Marks)) 0 (Program.unwrap a e 0) :=
        .apart (.inl ⟨.inl inside, fun marked => absurd marked unmarked⟩)
      rwa [Program.unwrap_before inside.le] at twins
    · exact .start fun marked => absurd marked unmarked
  obtain ⟨leaves'', explored', same'⟩ :=
    drops.exploresAs explored noFault (Int.le_refl 0) .empty start
  exact ⟨leaves'', explored', same'.trans same⟩

/-- The normal form keeps the leaves but failures. -/
theorem normal_exploresAs (bounded : pattern.Bounded)
    (fits : pattern.program.size ≤ config.maxAddress) (offsets : text.size ≤ config.maxOffset)
    {leaves : List Leaf}
    (explored : (Machine.mk pattern.program config).ExploresAs text ∅ {} leaves) :
    (Machine.mk pattern.normal.program config).ExploresAs text ∅ {} leaves := by
  have kept {other : Pattern} (collapses : Relation.ReflTransGen Collapses pattern other) :
      other.Bounded ∧ other.program.size ≤ config.maxAddress ∧
        (Machine.mk other.program config).ExploresAs text ∅ {} leaves := by
    induction collapses with
    | refl => exact ⟨bounded, fits, explored⟩
    | tail _ last ih =>
        obtain ⟨bounded, fits, explored⟩ := ih
        exact ⟨last.bounded bounded, (last.drops bounded fits offsets).1,
          last.exploresAs bounded fits offsets explored⟩
  exact (kept pattern.collapses_normal).2.2

theorem run_normal (bounded : pattern.Bounded) (fits : pattern.program.size ≤ config.maxAddress)
    (offsets : text.size ≤ config.maxOffset)
    (shallow : (text.size + 1) * max pattern.program.splits pattern.normal.program.splits ≤
      config.maxDepth) (strategy : Strategy) :
    ∃ verdict, (Machine.mk pattern.program config).run strategy text = .ok verdict ∧
      (Machine.mk pattern.normal.program config).run strategy text = .ok verdict := by
  have carries := Program.carries_program bounded
  have roomy : (Machine.mk pattern.program config).Roomy text := ⟨fits, offsets⟩
  have acyclic : (Machine.mk pattern.program config).program.NoIdleCycle := carries.noIdleCycle
  have acyclic' : (Machine.mk pattern.normal.program config).program.NoIdleCycle :=
    (Program.carries_program bounded.normal).noIdleCycle
  have shallow' : ∀ splits ≤ max pattern.program.splits pattern.normal.program.splits,
      (text.size + 1) * splits ≤ config.maxDepth :=
    fun splits le => (Nat.mul_le_mul_left _ le).trans shallow
  have left := shallow' _ (Nat.le_max_left _ _)
  have right := shallow' _ (Nat.le_max_right _ _)
  obtain ⟨verdict, ok⟩ := Machine.run_eq_ok roomy carries.closed acyclic left strategy
  obtain ⟨leaves, explored, depth, breadth⟩ := Machine.run_leaves acyclic left
  obtain ⟨leaves', explored', depth', breadth'⟩ := Machine.run_leaves acyclic' right
  obtain ⟨_, kept, same⟩ := normal_exploresAs bounded fits offsets ⟨leaves, explored, rfl⟩
  obtain rfl := kept.unique explored'
  refine ⟨verdict, ok, ?_⟩
  rw [← ok]
  cases strategy with
  | depthFirst =>
      rw [depth, depth', ← Leaf.merged_decisive, same, Leaf.merged_decisive]
  | breadthFirst =>
      rw [breadth, breadth', ← Leaf.first_decisive, same, Leaf.first_decisive]

/--
Normalising changes no result. A pattern and its normal form both have a program, and on every
text that the limits have room for either strategy returns the same verdict on both. So the
search of a line finds the same answer too.
-/
theorem normal_runs_same (bounded : pattern.Bounded)
    (fits : pattern.program.size ≤ config.maxAddress)
    (fits' : pattern.normal.program.size ≤ config.maxAddress) :
    (∃ draft, Draft.complete config.maxAddress pattern {} = .ok pattern.program draft) ∧
    (∃ draft, Draft.complete config.maxAddress pattern.normal {} =
      .ok pattern.normal.program draft) ∧
    ∀ text : Array Symbol, text.size ≤ config.maxOffset →
      (text.size + 1) * max pattern.program.splits pattern.normal.program.splits ≤
        config.maxDepth →
      ∀ strategy,
        (∃ verdict, (Machine.mk pattern.program config).run strategy text = .ok verdict ∧
          (Machine.mk pattern.normal.program config).run strategy text = .ok verdict) ∧
        ∃ answer,
          ((Machine.mk pattern.program config).matchLine strategy text).value = .ok answer ∧
          ((Machine.mk pattern.normal.program config).matchLine strategy text).value =
            .ok answer := by
  refine ⟨Draft.complete_of bounded fits, Draft.complete_of bounded.normal fits', ?_⟩
  intro text offsets shallow strategy
  refine ⟨run_normal bounded fits offsets shallow strategy, ?_⟩
  refine Machine.searchAt_value fun offset _ => ?_
  have shorter : (text.extract offset text.size).size ≤ text.size := by
    rw [Array.size_extract]
    omega
  refine run_normal bounded fits (shorter.trans offsets) (le_trans ?_ shallow) strategy
  exact Nat.mul_le_mul_right _ (Nat.succ_le_succ shorter)

def nestedStars : Pattern :=
  .repetition .zeroOrMore (.alternative .lineStart
    (.repetition .zeroOrMore (.sequence
      [.repetition .zeroOrMore (.repetition .zeroOrOne (.literal "a"))])))

theorem normal_runs_same_nestedStars :
    nestedStars.Bounded ∧ nestedStars.normal ≠ nestedStars ∧
      nestedStars.program.size ≤ ({} : Config).maxAddress ∧
      nestedStars.normal.program.size ≤ ({} : Config).maxAddress ∧
      (2 + 1) * max nestedStars.program.splits nestedStars.normal.program.splits ≤ 100000 ∧
      (∃ verdict, (Machine.mk nestedStars.program {}).run .breadthFirst #["a", "b"] =
          .ok verdict ∧
        (Machine.mk nestedStars.normal.program {}).run .breadthFirst #["a", "b"] =
          .ok verdict) ∧
      ∃ answer,
        ((Machine.mk nestedStars.program {}).matchLine .depthFirst #["a", "b"]).value =
          .ok answer ∧
        ((Machine.mk nestedStars.normal.program {}).matchLine .depthFirst #["a", "b"]).value =
          .ok answer := by
  have bounded : nestedStars.Bounded := by decide
  have fits : nestedStars.program.size ≤ ({} : Config).maxAddress := by decide
  have fits' : nestedStars.normal.program.size ≤ ({} : Config).maxAddress := by decide
  have shallow : (2 + 1) * max nestedStars.program.splits nestedStars.normal.program.splits ≤
      100000 := by decide
  obtain ⟨-, -, same⟩ := normal_runs_same bounded fits fits'
  have returns := same #["a", "b"] (by decide) shallow
  exact ⟨bounded, by decide, fits, fits', shallow, (returns .breadthFirst).1,
    (returns .depthFirst).2⟩

end Pattern

end PatternMachine

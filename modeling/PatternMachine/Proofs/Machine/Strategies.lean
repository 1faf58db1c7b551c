import Mathlib.Tactic.IntervalCases
import PatternMachine.Proofs.Machine.Termination

/-!
# What the two strategies return

The depth-first verdict sums up all leaves of the exploration, the breadth-first verdict is that
of the first leaf that does not fail. Neither depends on where the guard cuts empty loops: what
they report about matches holds of the unguarded paths.
-/

namespace PatternMachine

namespace Leaf

/-- Where the merge is a verdict the first leaf agrees, but may rely on the anchor alone. -/
theorem first_of_merged {leaves : List Leaf} {verdict : Verdict}
    (ok : merged leaves = .ok verdict) :
    ∃ other, first leaves = .ok other ∧ other.matched = verdict.matched ∧
      (verdict.requiresHead = true → other.requiresHead = true) := by
  obtain ⟨noFault, matched, requiresHead⟩ := merged_eq_ok ok
  rcases first_of_noFault noFault with ⟨none, fails⟩ | ⟨flag, decided, mem⟩
  · refine ⟨_, none, ?_, ?_⟩
    · refine Eq.symm (Bool.eq_false_iff.mpr fun hit => ?_)
      obtain ⟨flag, mem⟩ := matched.mp hit
      exact fails flag mem
    · intro required
      obtain ⟨⟨flag, mem⟩, -⟩ := requiresHead.mp required
      exact absurd mem (fails flag)
  · refine ⟨_, decided, (matched.mpr ⟨flag, mem⟩).symm, fun required => ?_⟩
    cases flag with
    | true => rfl
    | false => exact absurd mem (requiresHead.mp required).2

theorem merged_of_first_eq_error {leaves : List Leaf} {fault : Fault}
    (error : first leaves = .error fault) : merged leaves = .error fault := by
  induction leaves with
  | nil => cases error
  | cons leaf rest ih =>
      cases leaf with
      | fails => rw [merged, ih error]; rfl
      | accepts flag => cases error
      | faults found =>
          cases error
          rfl

end Leaf

namespace Machine

variable {machine : Machine} {text : Array Symbol}

/-! ## The order of the leaves -/

/--
On a program without idle cycles and with room for the nesting, the leaves of the exploration
decide what both strategies return. Breadth-first search finds the first leaf but failures, and
agrees with the depth-first merge wherever that is a verdict.
-/
theorem run_of_noIdleCycle (acyclic : machine.program.NoIdleCycle) (text : Array Symbol)
    (shallow : (text.size + 1) * machine.program.splits ≤ machine.config.maxDepth) :
    ∃ leaves, (∀ other, machine.HasLeaves text ∅ {} other ↔ other = leaves) ∧
      machine.run .breadthFirst text = Leaf.first leaves ∧
      machine.run .depthFirst text = Leaf.merged leaves ∧
      (∀ verdict, machine.run .depthFirst text = .ok verdict →
        ∃ other, machine.run .breadthFirst text = .ok other ∧
          other.matched = verdict.matched ∧
          (verdict.requiresHead = true → other.requiresHead = true)) ∧
      (∀ fault, machine.run .breadthFirst text = .error fault →
        machine.run .depthFirst text = .error fault) := by
  obtain ⟨leaves, explored, depth, breadth⟩ := run_leaves acyclic shallow
  refine ⟨leaves, fun other => ⟨fun others => others.unique explored, ?_⟩, breadth, depth, ?_, ?_⟩
  · rintro rfl
    exact explored
  · intro verdict ok
    rw [depth] at ok
    rw [breadth]
    exact Leaf.first_of_merged ok
  · intro fault error
    rw [breadth] at error
    rw [depth]
    exact Leaf.merged_of_first_eq_error error

/-- A match that relies on the start anchor is tried before one that does not. -/
def anchoredFirst : Machine :=
  ⟨⟨#[.split 1 4, .head, .literal "a", .jump 5, .literal "a", .accept]⟩, {}⟩

theorem noIdleCycle_anchoredFirst : anchoredFirst.program.NoIdleCycle := by
  refine Program.NoIdleCycle.of_jumps fun a b jump => .inl ?_
  obtain ⟨index, rfl, found⟩ := Program.fetch?_eq_some_iff.mp jump
  have inside : index < 6 := (Array.getElem?_eq_some_iff.mp found).1
  interval_cases index <;> cases found
  decide

theorem run_of_noIdleCycle_anchoredFirst :
    anchoredFirst.program.NoIdleCycle ∧ (1 + 1) * anchoredFirst.program.splits ≤ 100000 ∧
      (∃ leaves, (∀ other, anchoredFirst.HasLeaves #["a"] ∅ {} other ↔ other = leaves) ∧
        anchoredFirst.run .breadthFirst #["a"] = Leaf.first leaves ∧
        anchoredFirst.run .depthFirst #["a"] = Leaf.merged leaves) ∧
      anchoredFirst.run .breadthFirst #["a"] = .ok ⟨true, true⟩ ∧
      anchoredFirst.run .depthFirst #["a"] = .ok ⟨true, false⟩ := by
  have shallow : (1 + 1) * anchoredFirst.program.splits ≤ 100000 := by decide
  obtain ⟨leaves, unique, breadth, depth, -⟩ :=
    run_of_noIdleCycle noIdleCycle_anchoredFirst #["a"] shallow
  exact ⟨noIdleCycle_anchoredFirst, shallow, ⟨leaves, unique, breadth, depth⟩,
    by decide +kernel, by decide +kernel⟩

/-! ## The guard -/

/-- An unguarded run can come to the thread. -/
def Reaches (machine : Machine) (text : Array Symbol) (thread : Thread) : Prop :=
  Relation.ReflTransGen (machine.Moves text) {} thread

theorem accepts_start_iff {flag : Bool} :
    machine.Accepts text ∅ {} flag ↔
      ∃ final, machine.Reaches text final ∧ machine.Accepting text final ∧
        final.headUsed = flag :=
  accepts_empty_iff

theorem exists_accepts_start_iff :
    (∃ flag, machine.Accepts text ∅ {} flag) ↔
      ∃ final, machine.Reaches text final ∧ machine.Accepting text final := by
  simp only [accepts_start_iff]
  constructor
  · rintro ⟨flag, final, reaches, accepting, -⟩
    exact ⟨final, reaches, accepting⟩
  · rintro ⟨final, reaches, accepting⟩
    exact ⟨final.headUsed, final, reaches, accepting, rfl⟩

theorem not_accepts_start_iff :
    ¬ machine.Accepts text ∅ {} false ↔
      ∀ final, machine.Reaches text final → machine.Accepting text final →
        final.headUsed = true := by
  simp only [accepts_start_iff, not_exists, not_and, Bool.not_eq_false]

/--
The guard against empty loops changes no verdict: a run that returns has matched exactly when an
accepting thread is reachable without the guard, and its note is that of the reachable accepting
threads, of all of them in a depth-first run and of one of them in a breadth-first run.
-/
theorem run_iff_reaches (machine : Machine) (text : Array Symbol) :
    (∀ verdict, machine.run .depthFirst text = .ok verdict →
      (verdict.matched = true ↔
        ∃ final, machine.Reaches text final ∧ machine.Accepting text final) ∧
      (verdict.requiresHead = true ↔
        (∃ final, machine.Reaches text final ∧ machine.Accepting text final) ∧
          ∀ final, machine.Reaches text final → machine.Accepting text final →
            final.headUsed = true)) ∧
    (∀ verdict, machine.run .breadthFirst text = .ok verdict →
      (verdict.matched = true ↔
        ∃ final, machine.Reaches text final ∧ machine.Accepting text final) ∧
      (verdict.matched = true →
        ∃ final, machine.Reaches text final ∧ machine.Accepting text final ∧
          final.headUsed = verdict.requiresHead)) := by
  constructor
  · intro verdict ok
    obtain ⟨leaves, explored, merged⟩ := runDepth_eq_ok ok
    rw [← exists_accepts_start_iff, ← not_accepts_start_iff]
    exact explored.verdict_iff merged
  · intro verdict ok
    rw [← exists_accepts_start_iff, ← accepts_start_iff]
    exact runBreadth_verdict ok

/-- A loop with an empty body in front of the accepting instruction. -/
def emptyLoop : Machine :=
  ⟨⟨#[.split 1 2, .jump 0, .accept]⟩, {}⟩

theorem run_iff_reaches_emptyLoop :
    emptyLoop.run .depthFirst #[] = .ok ⟨true, false⟩ ∧
      emptyLoop.run .breadthFirst #[] = .ok ⟨true, false⟩ ∧
      ¬ (∀ final, emptyLoop.Reaches #[] final → emptyLoop.Accepting #[] final →
        final.headUsed = true) ∧
      ∃ final, emptyLoop.Reaches #[] final ∧ emptyLoop.Accepting #[] final ∧
        final.headUsed = false := by
  have depth : emptyLoop.run .depthFirst #[] = .ok ⟨true, false⟩ := by decide +kernel
  have breadth : emptyLoop.run .breadthFirst #[] = .ok ⟨true, false⟩ := by decide +kernel
  obtain ⟨depthIff, breadthIff⟩ := run_iff_reaches emptyLoop #[]
  obtain ⟨matched, requiresHead⟩ := depthIff _ depth
  refine ⟨depth, breadth, fun relies => ?_, (breadthIff _ breadth).2 rfl⟩
  exact absurd (requiresHead.mpr ⟨matched.mp rfl, relies⟩) (by simp)

/-! ## Lines -/

/-- A search of a line returns where all its runs return, and their verdicts decide the answer. -/
theorem searchAt_value {machine machine' : Machine} {strategy : Strategy} {line : Array Symbol}
    {offsets : List Nat}
    (same : ∀ offset ∈ offsets, ∃ verdict,
      machine.run strategy (line.extract offset line.size) = .ok verdict ∧
        machine'.run strategy (line.extract offset line.size) = .ok verdict) :
    ∃ answer, (machine.searchAt strategy line offsets).value = .ok answer ∧
      (machine'.searchAt strategy line offsets).value = .ok answer := by
  induction offsets with
  | nil => exact ⟨false, rfl, rfl⟩
  | cons offset later ih =>
      obtain ⟨⟨verdict, one, other⟩, rest⟩ := List.forall_mem_cons.mp same
      obtain ⟨answer, restOne, restOther⟩ := ih rest
      simp only [searchAt, runLogged, one, other]
      split
      · exact ⟨true, rfl, rfl⟩
      · exact ⟨answer, restOne, restOther⟩

end Machine

end PatternMachine

import PatternMachine.Proofs.Machine.Reachable

/-!
# Searching a line

A search runs the program on the rest of a line at every offset. There the start anchor holds at
the start of the rest, and a match that relied on it is dropped unless the offset is zero. So the
search finds just the matches of the line itself: the paths that begin at some position, read the
line, and pass a start anchor at the true start of the line only.
-/

namespace PatternMachine

/-! ## Steps without limits -/

/-- What an instruction does to a thread where no limit stands in its way. -/
def Instruction.stepAt (text : Array Symbol) (address : Int) (offset : Nat) (used : Bool) :
    Instruction → Step
  | .literal symbol =>
      if text[offset]? = some symbol then .advance ⟨address + 1, (offset + 1 : Nat), used⟩
      else .fail
  | .any =>
      if offset < text.size then .advance ⟨address + 1, (offset + 1 : Nat), used⟩ else .fail
  | .head => if offset = 0 then .advance ⟨address + 1, offset, true⟩ else .fail
  | .matchEnd => if text.size ≤ offset then .accept else .fail
  | .jump target => .advance ⟨target, offset, used⟩
  | .split first second => .fork ⟨first, offset, used⟩ ⟨second, offset, used⟩
  | .accept => .accept

namespace Config

variable {config : Config} {text : Array Symbol} {address : Int} {offset : Nat} {used : Bool}

theorem consume_eq_ok_at {result : Step}
    (ok : config.consume ⟨address, offset, used⟩ = .ok result) :
    result = .advance ⟨address + 1, (offset + 1 : Nat), used⟩ :=
  consume_eq_ok ok

theorem step_eq_ok {instruction : Instruction} {result : Step}
    (ok : config.step text instruction ⟨address, offset, used⟩ = .ok result) :
    result = instruction.stepAt text address offset used := by
  cases instruction with
  | literal symbol =>
      simp only [step, Instruction.stepAt] at ok ⊢
      by_cases inside : offset < text.size
      · have found : symbolAt? text offset = some text[offset] := by simp [symbolAt?, inside]
        rw [if_pos (by omega), found] at ok
        simp only [Array.getElem?_eq_getElem inside, Option.some.injEq] at ok ⊢
        split at ok
        · rename_i same
          rw [if_pos same]
          exact consume_eq_ok_at ok
        · rename_i other
          cases ok
          rw [if_neg other]
      · rw [if_neg (by omega)] at ok
        cases ok
        rw [if_neg (by simp [Array.getElem?_eq_none (Nat.le_of_not_lt inside)])]
  | any =>
      simp only [step, Instruction.stepAt, Int.ofNat_lt] at ok ⊢
      split at ok
      · rename_i inside
        rw [if_pos inside]
        exact consume_eq_ok_at ok
      · rename_i outside
        cases ok
        rw [if_neg outside]
  | head =>
      simp only [step, Instruction.stepAt, Int.natCast_eq_zero] at ok ⊢
      split at ok
      · rename_i start
        rw [if_pos start]
        split at ok
        · cases ok
        · rename_i next advanced
          cases ok
          rw [nextAddress_eq_ok advanced]
      · rename_i inner
        cases ok
        rw [if_neg inner]
  | matchEnd =>
      simp only [step, Instruction.stepAt, Int.ofNat_le] at ok ⊢
      split at ok
      · rename_i ended
        cases ok
        rw [if_pos ended]
      · rename_i unended
        cases ok
        rw [if_neg unended]
  | jump target =>
      cases ok
      rfl
  | split first second =>
      cases ok
      rfl
  | accept =>
      cases ok
      rfl

end Config

/-! ## Paths in a line -/

structure Spot where
  address : Int
  position : Nat
  deriving DecidableEq

namespace Program

variable {program : Program} {line : Array Symbol}

/--
One move of a path in a line. Symbols are those of the line, and a start anchor lets pass only at
the start of the line.
-/
inductive MovesIn (program : Program) (text : Array Symbol) : Spot → Spot → Prop where
  | literal {address : Int} {position : Nat} {symbol : Symbol}
      (fetched : program.fetch? address = some (.literal symbol))
      (found : text[position]? = some symbol) :
      MovesIn program text ⟨address, position⟩ ⟨address + 1, position + 1⟩
  | any {address : Int} {position : Nat} (fetched : program.fetch? address = some .any)
      (inside : position < text.size) :
      MovesIn program text ⟨address, position⟩ ⟨address + 1, position + 1⟩
  | head {address : Int} (fetched : program.fetch? address = some .head) :
      MovesIn program text ⟨address, 0⟩ ⟨address + 1, 0⟩
  | jump {address target : Int} {position : Nat}
      (fetched : program.fetch? address = some (.jump target)) :
      MovesIn program text ⟨address, position⟩ ⟨target, position⟩
  | split {address first second target : Int} {position : Nat}
      (fetched : program.fetch? address = some (.split first second))
      (chosen : target = first ∨ target = second) :
      MovesIn program text ⟨address, position⟩ ⟨target, position⟩

/-- A path in a line may end here with a match, behind an end anchor only at the end of the line. -/
inductive AcceptsIn (program : Program) (line : Array Symbol) : Spot → Prop where
  | accept {address : Int} {position : Nat} (fetched : program.fetch? address = some .accept) :
      AcceptsIn program line ⟨address, position⟩
  | matchEnd {address : Int} (fetched : program.fetch? address = some .matchEnd) :
      AcceptsIn program line ⟨address, line.size⟩

/-- Some path of the program from the position of the line ends with a match. -/
def MatchesFrom (program : Program) (line : Array Symbol) (start : Nat) : Prop :=
  ∃ final, Relation.ReflTransGen (program.MovesIn line) ⟨0, start⟩ final ∧
    program.AcceptsIn line final

end Program

/-- Where in the line a thread stands that runs on the rest of the line from the start on. -/
def Thread.spot (start : Nat) (thread : Thread) : Spot :=
  ⟨thread.pc, start + thread.offset.toNat⟩

namespace Machine

variable {machine : Machine} {line : Array Symbol} {start : Nat}

/-- A thread in the rest of a line is free if a start anchor that it passed is that of the line. -/
def Free (start : Nat) (thread : Thread) : Prop :=
  start = 0 ∨ thread.headUsed = false

theorem step_eq_stepAt {thread : Thread} {text : Array Symbol} {result : Step}
    (within : thread.Within text) (ok : machine.step text thread = .ok result) :
    ∃ instruction, machine.program.fetch? thread.pc = some instruction ∧
      result = instruction.stepAt text thread.pc thread.offset.toNat thread.headUsed := by
  obtain ⟨instruction, fetched, -⟩ := fetch?_of_step ok
  refine ⟨instruction, fetched, ?_⟩
  rw [step, fetched] at ok
  have offset : (thread.offset.toNat : Int) = thread.offset := Int.toNat_of_nonneg within.nonneg
  have same : thread = ⟨thread.pc, (thread.offset.toNat : Int), thread.headUsed⟩ := by rw [offset]
  rw [same] at ok
  exact Config.step_eq_ok ok

theorem getElem?_rest (text : Array Symbol) (start offset : Nat) :
    (text.extract start text.size)[offset]? = text[start + offset]? := by
  rw [Array.getElem?_extract, Nat.min_self]
  split
  · rfl
  · rename_i outside
    exact (Array.getElem?_eq_none (by omega)).symm

/-- A move in the rest of a line is a move in the line, as long as the thread remains free. -/
theorem Moves.movesIn {thread next : Thread}
    (move : machine.Moves (line.extract start line.size) thread next)
    (within : thread.Within (line.extract start line.size)) (free : Free start next) :
    machine.program.MovesIn line (thread.spot start) (next.spot start) ∧ Free start thread := by
  cases move with
  | advance step =>
      obtain ⟨instruction, fetched, result⟩ := step_eq_stepAt within step
      cases instruction with
      | literal symbol =>
          simp only [Instruction.stepAt, getElem?_rest] at result
          split at result
          · rename_i found
            cases result
            exact ⟨.literal fetched found, free⟩
          · cases result
      | any =>
          simp only [Instruction.stepAt, Array.size_extract, Nat.min_self] at result
          split at result
          · rename_i inside
            cases result
            exact ⟨.any fetched (by omega), free⟩
          · cases result
      | head =>
          simp only [Instruction.stepAt] at result
          split at result
          · rename_i first
            cases result
            obtain rfl : start = 0 := free.resolve_right (by simp)
            refine ⟨?_, .inl rfl⟩
            simp only [Thread.spot, Int.toNat_natCast, first]
            exact .head fetched
          · cases result
      | matchEnd =>
          simp only [Instruction.stepAt] at result
          split at result <;> cases result
      | jump target =>
          cases result
          exact ⟨.jump fetched, free⟩
      | split first second => cases result
      | accept => cases result
  | fork step chosen =>
      obtain ⟨fetched, firstEq, secondEq⟩ := step_eq_fork step
      rcases chosen with rfl | rfl
      · rw [firstEq] at free ⊢
        exact ⟨.split fetched (.inl rfl), free⟩
      · rw [secondEq] at free ⊢
        exact ⟨.split fetched (.inr rfl), free⟩

theorem exists_moves_of_movesIn {thread : Thread} {result : Step} {spot : Spot}
    (move : machine.program.MovesIn line (thread.spot start) spot)
    (within : thread.Within (line.extract start line.size))
    (ok : machine.step (line.extract start line.size) thread = .ok result)
    (free : Free start thread) :
    ∃ next, machine.Moves (line.extract start line.size) thread next ∧ next.spot start = spot ∧
      Free start next := by
  obtain ⟨instruction, fetched, rfl⟩ := step_eq_stepAt within ok
  generalize here : thread.spot start = spot' at move
  obtain ⟨address, offset, used⟩ := thread
  cases move with
  | literal fetched' found =>
      obtain ⟨rfl, rfl⟩ := Spot.mk.inj here
      obtain rfl := Option.some.inj (fetched.symm.trans fetched')
      rw [Instruction.stepAt, getElem?_rest, if_pos found] at ok
      exact ⟨_, .advance ok, rfl, free⟩
  | any fetched' inside =>
      obtain ⟨rfl, rfl⟩ := Spot.mk.inj here
      obtain rfl := Option.some.inj (fetched.symm.trans fetched')
      rw [Instruction.stepAt, Array.size_extract, Nat.min_self, if_pos (by omega)] at ok
      exact ⟨_, .advance ok, rfl, free⟩
  | head fetched' =>
      obtain ⟨rfl, first⟩ := Spot.mk.inj here
      obtain rfl := Option.some.inj (fetched.symm.trans fetched')
      rw [Instruction.stepAt, if_pos (by omega)] at ok
      refine ⟨_, .advance ok, ?_, .inl (by omega)⟩
      simp only [Thread.spot, Int.toNat_natCast, first]
  | jump fetched' =>
      obtain ⟨rfl, rfl⟩ := Spot.mk.inj here
      obtain rfl := Option.some.inj (fetched.symm.trans fetched')
      exact ⟨_, .advance ok, rfl, free⟩
  | split fetched' chosen =>
      obtain ⟨rfl, rfl⟩ := Spot.mk.inj here
      obtain rfl := Option.some.inj (fetched.symm.trans fetched')
      rcases chosen with rfl | rfl
      · exact ⟨_, .fork ok (.inl rfl), rfl, free⟩
      · exact ⟨_, .fork ok (.inr rfl), rfl, free⟩

theorem acceptsIn_of_accepting {thread : Thread} (inside : start ≤ line.size)
    (within : thread.Within (line.extract start line.size))
    (accepting : machine.Accepting (line.extract start line.size) thread) :
    machine.program.AcceptsIn line (thread.spot start) := by
  obtain ⟨instruction, fetched, result⟩ := step_eq_stepAt within accepting
  cases instruction with
  | literal symbol | any | head =>
      simp only [Instruction.stepAt] at result
      split at result <;> cases result
  | matchEnd =>
      have le := within.le
      simp only [Instruction.stepAt, Array.size_extract, Nat.min_self] at result le
      split at result
      · rename_i ended
        have position : start + thread.offset.toNat = line.size := by omega
        rw [Thread.spot, position]
        exact .matchEnd fetched
      · cases result
  | jump target | split first second => cases result
  | accept => exact .accept fetched

theorem accepting_of_acceptsIn {thread : Thread} {result : Step}
    (accepts : machine.program.AcceptsIn line (thread.spot start))
    (within : thread.Within (line.extract start line.size))
    (ok : machine.step (line.extract start line.size) thread = .ok result) :
    machine.Accepting (line.extract start line.size) thread := by
  obtain ⟨instruction, fetched, rfl⟩ := step_eq_stepAt within ok
  generalize here : thread.spot start = spot at accepts
  obtain ⟨address, offset, used⟩ := thread
  cases accepts with
  | accept fetched' =>
      obtain ⟨rfl, rfl⟩ := Spot.mk.inj here
      obtain rfl := Option.some.inj (fetched.symm.trans fetched')
      exact ok
  | matchEnd fetched' =>
      obtain ⟨rfl, ended⟩ := Spot.mk.inj here
      obtain rfl := Option.some.inj (fetched.symm.trans fetched')
      rw [Instruction.stepAt, Array.size_extract, Nat.min_self, if_pos (by omega)] at ok
      exact ok

/-! ## Searching a line -/

theorem movesIn_of_reaches {thread final : Thread}
    (moves : Relation.ReflTransGen (machine.Moves (line.extract start line.size)) thread final)
    (within : thread.Within (line.extract start line.size)) (free : Free start final) :
    Relation.ReflTransGen (machine.program.MovesIn line) (thread.spot start) (final.spot start) ∧
      Free start thread := by
  induction moves using Relation.ReflTransGen.head_induction_on with
  | refl => exact ⟨.refl, free⟩
  | head move _ ih =>
      obtain ⟨path, free⟩ := ih (move.within within)
      obtain ⟨first, free⟩ := move.movesIn within free
      exact ⟨.head first path, free⟩

/-- Where the run on the rest of a line returns, every path in the line is one of a free thread. -/
theorem exists_reaches_of_movesIn {verdict : Verdict} {spot : Spot}
    (ok : machine.run .depthFirst (line.extract start line.size) = .ok verdict)
    (path : Relation.ReflTransGen (machine.program.MovesIn line) ⟨0, start⟩ spot) :
    ∃ thread, machine.Reaches (line.extract start line.size) thread ∧ thread.spot start = spot ∧
      Free start thread := by
  induction path with
  | refl => exact ⟨{}, .refl, rfl, .inr rfl⟩
  | tail _ move ih =>
      obtain ⟨thread, reaches, rfl, free⟩ := ih
      obtain ⟨result, step⟩ := step_eq_ok_of_reaches ok reaches
      obtain ⟨next, moves, here, free⟩ :=
        exists_moves_of_movesIn move (within_of_reaches reaches) step free
      exact ⟨next, reaches.tail moves, here, free⟩

/--
A merged verdict holds at an offset exactly when some path accepts, and one without a start anchor
unless the offset is zero.
-/
theorem HasLeaves.holdsAt_iff {text : Array Symbol} {thread : Thread} {leaves : List Leaf}
    {verdict : Verdict} (explored : machine.HasLeaves text ∅ thread leaves)
    (merged : Leaf.merged leaves = .ok verdict) (start : Nat) :
    verdict.holdsAt start = true ↔
      ∃ flag, machine.Accepts text ∅ thread flag ∧ (start = 0 ∨ flag = false) := by
  obtain ⟨matched, requiresHead⟩ := explored.verdict_iff merged
  simp only [Verdict.holdsAt, Bool.and_eq_true, Bool.or_eq_true, Bool.not_eq_true', beq_iff_eq]
  constructor
  · rintro ⟨hit, unneeded | first⟩
    · refine ⟨false, ?_, .inr rfl⟩
      by_contra none
      exact absurd (requiresHead.mpr ⟨matched.mp hit, none⟩) (by simp [unneeded])
    · obtain ⟨flag, path⟩ := matched.mp hit
      exact ⟨flag, path, .inl first⟩
  · rintro ⟨flag, path, free⟩
    refine ⟨matched.mpr ⟨flag, path⟩, ?_⟩
    rcases free with first | rfl
    · exact .inr first
    · exact .inl (Bool.eq_false_iff.mpr fun required => (requiresHead.mp required).2 path)

theorem holdsAt_iff {text : Array Symbol} {verdict : Verdict}
    (ok : machine.run .depthFirst text = .ok verdict) (start : Nat) :
    verdict.holdsAt start = true ↔
      ∃ final, machine.Reaches text final ∧ machine.Accepting text final ∧ Free start final := by
  obtain ⟨leaves, explored, merged⟩ := runDepth_eq_ok ok
  rw [explored.holdsAt_iff merged]
  simp only [accepts_start_iff]
  constructor
  · rintro ⟨_, ⟨final, reaches, accepting, rfl⟩, free⟩
    exact ⟨final, reaches, accepting, free⟩
  · rintro ⟨final, reaches, accepting, free⟩
    exact ⟨_, ⟨final, reaches, accepting, rfl⟩, free⟩

/-- The run on the rest of a line holds at its start exactly when the line has a match there. -/
theorem holdsAt_iff_matchesFrom {verdict : Verdict} (inside : start ≤ line.size)
    (ok : machine.run .depthFirst (line.extract start line.size) = .ok verdict) :
    verdict.holdsAt start = true ↔ machine.program.MatchesFrom line start := by
  rw [holdsAt_iff ok]
  constructor
  · rintro ⟨final, reaches, accepting, free⟩
    have within := within_of_reaches reaches
    obtain ⟨path, -⟩ := movesIn_of_reaches reaches (Thread.within_start _) free
    exact ⟨_, path, acceptsIn_of_accepting inside within accepting⟩
  · rintro ⟨spot, path, accepts⟩
    obtain ⟨final, reaches, rfl, free⟩ := exists_reaches_of_movesIn ok path
    obtain ⟨result, step⟩ := step_eq_ok_of_reaches ok reaches
    exact ⟨final, reaches, accepting_of_acceptsIn accepts (within_of_reaches reaches) step, free⟩

theorem searchAt_eq_ok {strategy : Strategy} {offsets : List Nat} {answer : Bool}
    (ok : (machine.searchAt strategy line offsets).value = .ok answer) :
    (answer = true → ∃ offset ∈ offsets, ∃ verdict,
      machine.run strategy (line.extract offset line.size) = .ok verdict ∧
        verdict.holdsAt offset = true) ∧
    (answer = false → ∀ offset ∈ offsets, ∃ verdict,
      machine.run strategy (line.extract offset line.size) = .ok verdict ∧
        verdict.holdsAt offset = false) := by
  induction offsets with
  | nil =>
      cases ok
      simp
  | cons offset later ih =>
      cases run : machine.run strategy (line.extract offset line.size) with
      | error fault => simp [searchAt, runLogged, run] at ok
      | ok verdict =>
          simp only [searchAt, runLogged, run] at ok
          split at ok
          · rename_i holds
            cases ok
            refine ⟨fun _ => ⟨offset, List.mem_cons_self, verdict, run, holds⟩, fun miss => ?_⟩
            cases miss
          · rename_i fails
            obtain ⟨found, nothing⟩ := ih ok
            refine ⟨fun hit => ?_, fun miss => ?_⟩
            · obtain ⟨other, mem, holds⟩ := found hit
              exact ⟨other, List.mem_cons_of_mem _ mem, holds⟩
            · have here : verdict.holdsAt offset = false := Bool.eq_false_iff.mpr fails
              exact List.forall_mem_cons.mpr ⟨⟨verdict, run, here⟩, nothing miss⟩

theorem searchAt_eq_error {strategy : Strategy} {offsets : List Nat} {fault : Fault}
    (error : (machine.searchAt strategy line offsets).value = .error fault) :
    ∃ offset ∈ offsets, machine.run strategy (line.extract offset line.size) = .error fault := by
  induction offsets with
  | nil => cases error
  | cons offset later ih =>
      cases run : machine.run strategy (line.extract offset line.size) with
      | error found =>
          simp only [searchAt, runLogged, run] at error
          cases error
          exact ⟨offset, List.mem_cons_self, run⟩
      | ok verdict =>
          simp only [searchAt, runLogged, run] at error
          split at error
          · cases error
          · obtain ⟨offset, mem, failed⟩ := ih error
            exact ⟨offset, List.mem_cons_of_mem _ mem, failed⟩

theorem mem_offsets_iff {offset : Nat} :
    offset ∈ List.range (line.size + 1) ↔ offset ≤ line.size := by
  rw [List.mem_range, Nat.lt_succ_iff]

/--
A depth-first search of a line that returns answers whether the program matches somewhere in the
line, the start anchor being that of the line. It returns if all the runs that it may need do.
-/
theorem matchLine_iff_matchesFrom (machine : Machine) (line : Array Symbol) :
    (∀ answer, (machine.matchLine .depthFirst line).value = .ok answer →
      (answer = true ↔ ∃ start ≤ line.size, machine.program.MatchesFrom line start)) ∧
    ((∀ start ≤ line.size, ∀ fault,
        machine.run .depthFirst (line.extract start line.size) ≠ .error fault) →
      ∃ answer, (machine.matchLine .depthFirst line).value = .ok answer) := by
  constructor
  · intro answer ok
    obtain ⟨found, nothing⟩ := searchAt_eq_ok ok
    constructor
    · intro hit
      obtain ⟨start, mem, verdict, run, holds⟩ := found hit
      have inside := mem_offsets_iff.mp mem
      exact ⟨start, inside, (holdsAt_iff_matchesFrom inside run).mp holds⟩
    · rintro ⟨start, inside, holds⟩
      refine Bool.eq_true_of_not_eq_false fun miss => ?_
      obtain ⟨verdict, run, fails⟩ := nothing miss start (mem_offsets_iff.mpr inside)
      rw [← holdsAt_iff_matchesFrom inside run, fails] at holds
      cases holds
  · intro returns
    cases value : (machine.matchLine .depthFirst line).value with
    | ok answer => exact ⟨answer, rfl⟩
    | error fault =>
        obtain ⟨start, mem, failed⟩ := searchAt_eq_error value
        exact absurd failed (returns start (mem_offsets_iff.mp mem) fault)

/-- A match that begins with the start anchor. -/
def anchoredOnly : Machine :=
  ⟨⟨#[.head, .literal "a", .accept]⟩, {}⟩

theorem matchLine_iff_matchesFrom_anchored :
    (∀ start ≤ 2, ∀ fault,
        anchoredFirst.run .depthFirst (#["b", "a"].extract start 2) ≠ .error fault) ∧
      (∃ answer, (anchoredFirst.matchLine .depthFirst #["b", "a"]).value = .ok answer) ∧
      (∃ start ≤ 2, anchoredFirst.program.MatchesFrom #["b", "a"] start) ∧
      ¬ ∃ start ≤ 2, anchoredOnly.program.MatchesFrom #["b", "a"] start := by
  have runs : ∀ start ≤ 2,
      (anchoredFirst.run .depthFirst (#["b", "a"].extract start 2)).isOk = true := by
    decide +kernel
  have returns : ∀ start ≤ 2, ∀ fault,
      anchoredFirst.run .depthFirst (#["b", "a"].extract start 2) ≠ .error fault := by
    intro start inside fault failed
    have ok := runs start inside
    rw [failed] at ok
    cases ok
  have missed : (anchoredOnly.matchLine .depthFirst #["b", "a"]).value = .ok false := by
    decide +kernel
  obtain ⟨iff, total⟩ := matchLine_iff_matchesFrom anchoredFirst #["b", "a"]
  have found : (anchoredFirst.matchLine .depthFirst #["b", "a"]).value = .ok true := by
    decide +kernel
  refine ⟨returns, total returns, (iff true found).mp rfl, fun matched => ?_⟩
  exact absurd (((matchLine_iff_matchesFrom anchoredOnly _).1 false missed).mpr matched) (by simp)

end Machine

end PatternMachine

import PatternMachine.Proofs.Machine.Budget

/-!
# Nested splits

The path that a depth-first run is on goes through one side of each split whose call is open, and
through no other split. These splits stand at different places, and their places are what is
marked. So the marks count the nesting, which is at most one for each split at each offset, and the
limit on the nesting is met only where that product exceeds it.
-/

namespace PatternMachine

def Call.place (call : Call) : Place :=
  call.thread.place

def Call.marked : List Call → Marks
  | [] => ∅
  | call :: calls => (marked calls).insert call.place

namespace Call

variable {call : Call} {calls : List Call}

theorem mem_marked {place : Place} : place ∈ marked calls ↔ place ∈ calls.map Call.place := by
  induction calls with
  | nil => simp [marked, Std.ExtTreeSet.not_mem_empty]
  | cons call calls ih => rw [marked, Marks.mem_insert, ih, List.map_cons, List.mem_cons]

theorem erase_marked (apart : ((call :: calls).map Call.place).Nodup) :
    (marked (call :: calls)).erase call.place = marked calls := by
  rw [List.map_cons, List.nodup_cons] at apart
  exact Marks.erase_insert (mt mem_marked.mp apart.1)

theorem size_marked (apart : (calls.map Call.place).Nodup) :
    (marked calls).size = calls.length := by
  induction calls with
  | nil => exact Std.ExtTreeSet.size_empty
  | cons call calls ih =>
      rw [List.map_cons, List.nodup_cons] at apart
      have unmarked : call.place ∉ marked calls := mt mem_marked.mp apart.1
      rw [marked, Marks.size_insert_of_notMem unmarked, ih apart.2, List.length_cons]

end Call

namespace Machine

variable {machine : Machine} {text : Array Symbol} {thread next : Thread} {call : Call}
  {calls : List Call} {descent before after : Descent}

/-! ## Paths and their calls -/

/-- The call explores the side of its split that begins with the thread. -/
inductive Enters (machine : Machine) (text : Array Symbol) : Call → Thread → Prop where
  | first {thread first second : Thread}
      (forks : machine.step text thread = .ok (.fork first second)) :
      Enters machine text (.first thread second.pc) first
  | second {thread first second : Thread} {one : Verdict}
      (forks : machine.step text thread = .ok (.fork first second)) :
      Enters machine text (.second thread one) second

/--
A path from the start to the thread that splits exactly at the calls, the innermost last, and takes
the sides that they explore.
-/
inductive Nests (machine : Machine) (text : Array Symbol) : List Call → Thread → Prop where
  | start : Nests machine text [] {}
  | advance {calls : List Call} {thread next : Thread} (nests : Nests machine text calls thread)
      (step : machine.step text thread = .ok (.advance next)) : Nests machine text calls next
  | enter {call : Call} {calls : List Call} {side : Thread}
      (nests : Nests machine text calls call.thread) (enters : machine.Enters text call side) :
      Nests machine text (call :: calls) side

theorem Enters.forks {side : Thread} (enters : machine.Enters text call side) :
    ∃ first second, machine.step text call.thread = .ok (.fork first second) ∧
      (side = first ∨ side = second) := by
  cases enters with
  | first forks => exact ⟨_, _, forks, .inl rfl⟩
  | second forks => exact ⟨_, _, forks, .inr rfl⟩

namespace Nests

theorem reaches (nests : machine.Nests text calls thread) : machine.Reaches text thread := by
  induction nests with
  | start => exact .refl
  | advance _ step ih => exact ih.tail (.advance step)
  | enter _ enters ih =>
      obtain ⟨first, second, forks, chosen⟩ := enters.forks
      exact ih.tail (.fork forks chosen)

theorem of_cons (nests : machine.Nests text (call :: calls) thread) :
    machine.Nests text calls call.thread ∧ ∃ side, machine.Enters text call side := by
  generalize stack : call :: calls = opened at nests
  induction nests with
  | start => cases stack
  | advance _ _ ih => exact ih stack
  | enter nests enters =>
      cases stack
      exact ⟨nests, _, enters⟩

theorem exists_split (nests : machine.Nests text calls thread) (mem : call ∈ calls) :
    ∃ first second, machine.program.fetch? call.place.address = some (.split first second) := by
  induction nests with
  | start => exact absurd mem List.not_mem_nil
  | advance _ _ ih => exact ih mem
  | enter _ enters ih =>
      rcases List.mem_cons.mp mem with rfl | outer
      · obtain ⟨first, second, forks, -⟩ := enters.forks
        exact ⟨first.pc, second.pc, (step_eq_fork forks).1⟩
      · exact ih outer

theorem fits (nests : machine.Nests text calls thread) :
    machine.MarksFit text (Call.marked calls) := by
  induction nests with
  | start => exact MarksFit.empty
  | advance _ _ ih => exact ih
  | enter nests enters ih =>
      obtain ⟨first, second, forks, -⟩ := enters.forks
      exact ih.insert (within_of_reaches nests.reaches) forks

end Nests

/-! ## Descents -/

/--
What holds wherever a depth-first run stands: the open calls are those of the path it is on, which
ends at the thread that it follows; they are at different places, exactly these are marked, and
there are no more of them than the limit allows.
-/
structure Nested (machine : Machine) (text : Array Symbol) (descent : Descent) : Prop where
  path : ∃ thread, machine.Nests text descent.calls thread ∧
    ∀ followed, descent.focus = .follows followed → followed = thread
  marks : descent.marks = Call.marked descent.calls
  apart : (descent.calls.map Call.place).Nodup
  room : descent.calls.length ≤ machine.config.maxDepth

namespace Nested

theorem start : machine.Nested text {} where
  path := ⟨{}, .start, fun _ focus => (Focus.follows.inj focus).symm⟩
  marks := rfl
  apart := List.nodup_nil
  room := Nat.zero_le _

theorem follows {marks : Marks} (nested : machine.Nested text ⟨.follows thread, calls, marks⟩) :
    machine.Nests text calls thread := by
  obtain ⟨end_, nests, same⟩ := nested.path
  exact same thread rfl ▸ nests

theorem size_marks (nested : machine.Nested text descent) :
    descent.marks.size = descent.calls.length := by
  rw [nested.marks, Call.size_marked nested.apart]

theorem mem_marks_iff (nested : machine.Nested text descent) {place : Place} :
    place ∈ descent.marks ↔ ∃ call ∈ descent.calls, call.place = place := by
  rw [nested.marks, Call.mem_marked, List.mem_map]

theorem fits (nested : machine.Nested text descent) : machine.MarksFit text descent.marks := by
  obtain ⟨thread, nests, -⟩ := nested.path
  exact nested.marks ▸ nests.fits

/-- One step of a depth-first run keeps what holds wherever it stands. -/
theorem descends (nested : machine.Nested text before)
    (descends : machine.Descends text before after) : machine.Nested text after := by
  cases descends with
  | advance step =>
      have path := nested.follows.advance (guardedStep_eq_advance_iff.mp step)
      exact ⟨⟨_, path, fun _ focus => (Focus.follows.inj focus).symm⟩, nested.marks, nested.apart,
        nested.room⟩
  | fail step | accept step =>
      exact ⟨⟨_, nested.follows, fun _ focus => Focus.noConfusion focus⟩, nested.marks,
        nested.apart, nested.room⟩
  | @fork thread first second calls marks step room =>
      obtain ⟨forks, unmarked⟩ := guardedStep_eq_fork_iff.mp step
      have size : marks.size = calls.length := nested.size_marks
      obtain rfl : marks = Call.marked calls := nested.marks
      have path : machine.Nests text (.first thread second.pc :: calls) first :=
        .enter nested.follows (.first forks)
      refine ⟨⟨_, path, fun _ focus => (Focus.follows.inj focus).symm⟩, rfl, ?_, ?_⟩
      · exact List.nodup_cons.mpr ⟨mt Call.mem_marked.mpr unmarked, nested.apart⟩
      · rw [size] at room
        exact room
  | @second thread target one calls marks =>
      obtain ⟨last, nests, -⟩ := nested.path
      obtain ⟨outer, side, enters⟩ := nests.of_cons
      obtain ⟨first, second, forks, rfl⟩ : ∃ first second,
          machine.step text thread = .ok (.fork first second) ∧ target = second.pc := by
        cases enters with
        | first forks => exact ⟨_, _, forks, rfl⟩
      have path : machine.Nests text (.second thread one :: calls) second :=
        .enter outer (.second forks)
      have same : { thread with pc := second.pc } = second := (step_eq_fork forks).2.2.symm
      rw [same]
      exact ⟨⟨_, path, fun _ focus => (Focus.follows.inj focus).symm⟩, nested.marks, nested.apart,
        nested.room⟩
  | @back thread one other calls marks =>
      obtain ⟨last, nests, -⟩ := nested.path
      obtain rfl : marks = Call.marked (.second thread one :: calls) := nested.marks
      have room : calls.length + 1 ≤ machine.config.maxDepth := nested.room
      exact ⟨⟨_, nests.of_cons.1, fun _ focus => Focus.noConfusion focus⟩,
        Call.erase_marked nested.apart, (List.nodup_cons.mp nested.apart).2,
        Nat.le_of_succ_le room⟩

theorem of_descendsTo (comes : machine.DescendsTo text descent) : machine.Nested text descent := by
  induction comes with
  | refl => exact start
  | tail _ step ih => exact ih.descends step

theorem exists_split (nested : machine.Nested text descent) {place : Place}
    (marked : place ∈ descent.marks) :
    ∃ first second, machine.program.fetch? place.address = some (.split first second) := by
  obtain ⟨thread, nests, -⟩ := nested.path
  obtain ⟨call, mem, rfl⟩ := nested.mem_marks_iff.mp marked
  exact nests.exists_split mem

/-- The nesting stays within the bound for the text. -/
theorem size_le_depthBound (nested : machine.Nested text descent) :
    (descent.marks.size : Int) ≤ machine.depthBound text.size := by
  have room : descent.marks.size ≤ machine.config.maxDepth := nested.size_marks ▸ nested.room
  rw [depthBound_natCast]
  exact Int.ofNat_le.mpr (Nat.le_min.mpr ⟨nested.fits.size_le, room⟩)

end Nested

/-! ## The limit -/

/--
A depth-first run meets the limit on the nesting exactly if it comes to a split at a place that is
not marked when there are as many marks as the limit allows.
-/
theorem runDepth_eq_depthLimit_iff {address : Int} :
    machine.run .depthFirst text = .error ⟨.depthLimit, address⟩ ↔
      ∃ thread calls marks first second,
        machine.DescendsTo text ⟨.follows thread, calls, marks⟩ ∧ thread.pc = address ∧
          machine.program.fetch? address = some (.split first second) ∧
          thread.place ∉ marks ∧ marks.size = machine.config.maxDepth := by
  constructor
  · intro limit
    obtain ⟨other, endless⟩ | ⟨last, comes, bottoms⟩ := bottoms_of_runDepth limit
    · cases endless
    · cases bottoms with
      | fault step => simpa using (step_eq_error (guardedStep_eq_error_iff.mp step)).2
      | @full thread first second calls marks step full =>
          obtain ⟨forks, unmarked⟩ := guardedStep_eq_fork_iff.mp step
          have nested := Nested.of_descendsTo comes
          have room : marks.size ≤ machine.config.maxDepth := nested.size_marks ▸ nested.room
          exact ⟨thread, calls, marks, first.pc, second.pc, comes, rfl, (step_eq_fork forks).1,
            unmarked, Nat.le_antisymm room full⟩
  · rintro ⟨thread, calls, marks, first, second, comes, rfl, fetched, unmarked, full⟩
    have forks : machine.step text thread = _ := step_split fetched
    have step := guardedStep_eq_fork_iff.mpr ⟨forks, unmarked⟩
    have returns := (machine.walk_deterministic text .depthFirst).returns comes
      (.full step full.ge)
    exact (walk_depthFirst_returns_iff.mp returns).1

theorem lt_nesting_of_depthLimit {address : Int}
    (limit : machine.run .depthFirst text = .error ⟨.depthLimit, address⟩) :
    machine.config.maxDepth < machine.nesting text.size := by
  obtain ⟨thread, calls, marks, first, second, comes, rfl, fetched, unmarked, full⟩ :=
    runDepth_eq_depthLimit_iff.mp limit
  have nested := Nested.of_descendsTo comes
  rw [← full]
  exact nested.fits.size_lt (within_of_reaches nested.follows.reaches) (step_split fetched)
    unmarked

/-! ## Lines -/

theorem depthBound_mono (machine : Machine) {length length' : Nat} (le : length ≤ length') :
    machine.depthBound length ≤ machine.depthBound length' := by
  have nesting := machine.nesting_mono le
  rw [depthBound_natCast, depthBound_natCast]
  omega

/-- The bound for a whole line covers the run on each rest of the line. -/
theorem size_le_depthBound_of_rest {line : Array Symbol} {start : Nat}
    (comes : machine.DescendsTo (line.extract start line.size) descent) :
    (descent.marks.size : Int) ≤ machine.depthBound line.size := by
  calc (descent.marks.size : Int)
      ≤ machine.depthBound (line.extract start line.size).size :=
        (Nested.of_descendsTo comes).size_le_depthBound
    _ ≤ machine.depthBound line.size := machine.depthBound_mono (size_rest_le line start)

theorem lt_nesting_of_matchLine_depthLimit {line : Array Symbol} {address : Int}
    (limit : (machine.matchLine .depthFirst line).value = .error ⟨.depthLimit, address⟩) :
    machine.config.maxDepth < machine.nesting line.size := by
  obtain ⟨start, -, failed⟩ := searchAt_eq_error limit
  exact Nat.lt_of_lt_of_le (lt_nesting_of_depthLimit failed)
    (machine.nesting_mono (size_rest_le line start))

/--
The bound on the nesting is right, for every program. Wherever a depth-first run stands, its marks
are at splits of the program and offsets of the text, they are those of the splits on the current
path, one for each, and there are no more of them than the bound says. A run fails for its nesting
exactly if it comes to one more split when there are as many marks as the limit allows, and then
the program has more splits at offsets than that. The bound for a line covers every run of the
search through the line.
-/
theorem nesting_bounded (machine : Machine) (text : Array Symbol) :
    (∀ descent, machine.DescendsTo text descent →
      (∃ thread, machine.Nests text descent.calls thread ∧
        ∀ followed, descent.focus = .follows followed → followed = thread) ∧
      (∀ place, place ∈ descent.marks ↔ ∃ call ∈ descent.calls, call.place = place) ∧
      (∀ place ∈ descent.marks,
        (∃ first second, machine.program.fetch? place.address = some (.split first second)) ∧
          0 ≤ place.offset ∧ place.offset ≤ text.size) ∧
      descent.marks.size = descent.calls.length ∧
      (descent.marks.size : Int) ≤ machine.depthBound text.size) ∧
    (∀ address, machine.run .depthFirst text = .error ⟨.depthLimit, address⟩ →
      machine.config.maxDepth < (text.size + 1) * machine.program.splits) ∧
    (∀ address, machine.run .depthFirst text = .error ⟨.depthLimit, address⟩ ↔
      ∃ thread calls marks first second,
        machine.DescendsTo text ⟨.follows thread, calls, marks⟩ ∧ thread.pc = address ∧
          machine.program.fetch? address = some (.split first second) ∧
          thread.place ∉ marks ∧ marks.size = machine.config.maxDepth) ∧
    (∀ start descent, machine.DescendsTo (text.extract start text.size) descent →
      (descent.marks.size : Int) ≤ machine.depthBound text.size) ∧
    ∀ address, (machine.matchLine .depthFirst text).value = .error ⟨.depthLimit, address⟩ →
      machine.config.maxDepth < (text.size + 1) * machine.program.splits := by
  refine ⟨fun descent comes => ?_, fun address => lt_nesting_of_depthLimit,
    fun address => runDepth_eq_depthLimit_iff, fun start descent => size_le_depthBound_of_rest,
    fun address => lt_nesting_of_matchLine_depthLimit⟩
  have nested := Nested.of_descendsTo comes
  refine ⟨nested.path, fun place => nested.mem_marks_iff, fun place marked => ?_,
    nested.size_marks, nested.size_le_depthBound⟩
  exact ⟨nested.exists_split marked, (nested.fits place marked).2⟩

/-- A split in the body of a loop, with room for one of the two. -/
def crowded : Machine :=
  ⟨⟨#[.split 1 3, .split 2 3, .jump 0, .accept]⟩, { maxDepth := 1 }⟩

theorem nesting_bounded_crowded :
    crowded.run .depthFirst #[] = .error ⟨.depthLimit, 1⟩ ∧
      (crowded.matchLine .depthFirst #[]).value = .error ⟨.depthLimit, 1⟩ ∧
      crowded.config.maxDepth < (0 + 1) * crowded.program.splits ∧
      (∃ thread calls marks first second,
        crowded.DescendsTo #[] ⟨.follows thread, calls, marks⟩ ∧ thread.pc = 1 ∧
          crowded.program.fetch? 1 = some (.split first second) ∧ thread.place ∉ marks ∧
          marks.size = 1 ∧ calls.length = 1) := by
  have limit : crowded.run .depthFirst #[] = .error ⟨.depthLimit, 1⟩ := by decide +kernel
  have limit' : (crowded.matchLine .depthFirst #[]).value = .error ⟨.depthLimit, 1⟩ := by
    decide +kernel
  obtain ⟨descents, -, stops, -, line⟩ := nesting_bounded crowded #[]
  obtain ⟨thread, calls, marks, first, second, comes, here, split, unmarked, full⟩ :=
    (stops 1).mp limit
  obtain ⟨-, -, -, size, -⟩ := descents _ comes
  exact ⟨limit, limit', line 1 limit', thread, calls, marks, first, second, comes, here, split,
    unmarked, full, size.symm.trans full⟩

end Machine

end PatternMachine

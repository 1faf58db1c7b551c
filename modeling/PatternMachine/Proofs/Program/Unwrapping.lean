import PatternMachine.Proofs.Program.Relocation

/-!
# A dropped star changes no leaf

Exploration of a program and of the same program without the outer of two stars, side by side.
The one star of the second program does the work of both: it is marked where one of the two is.
The outer star adds only paths that fail at once, so both explorations have the same leaves but
failures, in the same order.
-/

namespace PatternMachine

/-! ## Steps of relocated instructions -/

def Thread.moved (move : Int → Int) (thread : Thread) : Thread :=
  { thread with pc := move thread.pc }

def Step.moved (move : Int → Int) : Step → Step
  | .advance next => .advance (next.moved move)
  | .fail => .fail
  | .accept => .accept
  | .fork first second => .fork (first.moved move) (second.moved move)

namespace Machine

variable {machine machine' : Machine} {text : Array Symbol}

/-- Where the limits have room a relocated instruction does the same to a moved thread. -/
theorem step_moved (roomy : machine.Roomy text) (roomy' : machine'.Roomy text) {move : Int → Int}
    {instruction : Instruction} {address offset : Int} {used : Bool} (start : 0 ≤ offset)
    (fetched : machine.program.fetch? address = some instruction)
    (fetched' : machine'.program.fetch? (move address) = some (instruction.relocate move))
    (follows : ∀ target ∈ instruction.successors address, target = address + 1 →
      move target = move address + 1) :
    machine'.step text ⟨move address, offset, used⟩ =
      (machine.step text ⟨address, offset, used⟩).map (Step.moved move) := by
  obtain ⟨offset, rfl⟩ := Int.eq_ofNat_of_zero_le start
  cases instruction with
  | literal symbol =>
      have next := follows (address + 1) List.mem_cons_self rfl
      rw [roomy.step_literal fetched, roomy'.step_literal fetched', ← next]
      split <;> rfl
  | any =>
      have next := follows (address + 1) List.mem_cons_self rfl
      rw [roomy.step_any fetched, roomy'.step_any fetched', ← next]
      split <;> rfl
  | head =>
      have next := follows (address + 1) List.mem_cons_self rfl
      rw [roomy.step_head fetched, roomy'.step_head fetched', ← next]
      split <;> rfl
  | matchEnd =>
      rw [step_matchEnd fetched, step_matchEnd fetched']
      split <;> rfl
  | jump target =>
      rw [step_jump fetched, step_jump fetched']
      rfl
  | split first second =>
      rw [step_split fetched, step_split fetched']
      rfl
  | accept =>
      rw [step_accept fetched, step_accept fetched']
      rfl

end Machine

/-! ## Marks -/

def Place.unwrap (a e : Int) (place : Place) : Place :=
  ⟨Program.unwrap a e place.address, place.offset⟩

theorem Place.unwrap_outer (a e offset : Int) : Place.unwrap a e ⟨a, offset⟩ = ⟨a, offset⟩ :=
  congrArg (Place.mk · offset) (Program.unwrap_before (Int.le_refl a))

theorem Place.unwrap_inner {a e : Int} (middle : a + 2 ≤ e) (offset : Int) :
    Place.unwrap a e ⟨a + 1, offset⟩ = ⟨a, offset⟩ :=
  congrArg (Place.mk · offset) ((Program.unwrap_eq_start_iff middle).mpr (.inr rfl))

namespace Marks

/--
The second marks are the first ones in the program without the outer star; none is at the jump
back to the outer star, and none is behind the offset.
-/
structure Unwrap (a e offset : Int) (marks marks' : Marks) : Prop where
  image : ∀ place, place ∈ marks' ↔ ∃ mark ∈ marks, mark.unwrap a e = place
  splits : ∀ mark ∈ marks, mark.address ≠ e + 1
  past : ∀ mark ∈ marks, mark.offset ≤ offset

namespace Unwrap

variable {a e offset offset' : Int} {marks marks' : Marks}

theorem empty : Unwrap a e offset ∅ ∅ where
  image := by simp
  splits := by simp
  past := by simp

theorem later (unwrap : Unwrap a e offset marks marks') (le : offset ≤ offset') :
    Unwrap a e offset' marks marks' :=
  { unwrap with past := fun mark mem => (unwrap.past mark mem).trans le }

theorem insert (unwrap : Unwrap a e offset marks marks') (place : Place)
    (apart : place.address ≠ e + 1) (here : place.offset = offset) :
    Unwrap a e offset (marks.insert place) (marks'.insert (place.unwrap a e)) where
  image other := by
    rw [mem_insert, unwrap.image]
    constructor
    · rintro (rfl | ⟨mark, mem, same⟩)
      · exact ⟨place, mem_insert.mpr (.inl rfl), rfl⟩
      · exact ⟨mark, mem_insert.mpr (.inr mem), same⟩
    · rintro ⟨mark, mem, rfl⟩
      rcases mem_insert.mp mem with rfl | old
      · exact .inl rfl
      · exact .inr ⟨mark, old, rfl⟩
  splits mark mem := by
    rcases mem_insert.mp mem with rfl | old
    · exact apart
    · exact unwrap.splits mark old
  past mark mem := by
    rcases mem_insert.mp mem with rfl | old
    · exact here.le
    · exact unwrap.past mark old

/-- The second of the two stars that is marked adds no mark to the one star. -/
theorem insert_again (unwrap : Unwrap a e offset marks marks') (place : Place)
    (apart : place.address ≠ e + 1) (here : place.offset = offset)
    (marked : place.unwrap a e ∈ marks') : Unwrap a e offset (marks.insert place) marks' := by
  have same : marks'.insert (place.unwrap a e) = marks' := by
    apply Std.ExtTreeSet.ext_mem
    intro other
    rw [mem_insert]
    exact ⟨fun mem => mem.elim (fun same => same ▸ marked) id, .inr⟩
  exact same ▸ unwrap.insert place apart here

theorem mem_star_iff (unwrap : Unwrap a e offset marks marks') (middle : a + 2 ≤ e) :
    ⟨a, offset'⟩ ∈ marks' ↔ ⟨a, offset'⟩ ∈ marks ∨ ⟨a + 1, offset'⟩ ∈ marks := by
  rw [unwrap.image]
  constructor
  · rintro ⟨⟨address, offset⟩, mem, same⟩
    obtain ⟨star, rfl⟩ := Place.mk.inj same
    rcases (Program.unwrap_eq_start_iff middle).mp star with rfl | rfl
    · exact .inl mem
    · exact .inr mem
  · rintro (mem | mem)
    · exact ⟨_, mem, Place.unwrap_outer a e offset'⟩
    · exact ⟨_, mem, Place.unwrap_inner middle offset'⟩

theorem insert_outer (unwrap : Unwrap a e offset marks marks') (middle : a + 2 ≤ e) :
    Unwrap a e offset (marks.insert ⟨a, offset⟩) (marks'.insert ⟨a, offset⟩) := by
  have marked := unwrap.insert ⟨a, offset⟩ (by simp only; omega) rfl
  rwa [Place.unwrap_outer] at marked

theorem insert_inner (unwrap : Unwrap a e offset marks marks') (middle : a + 2 ≤ e) :
    Unwrap a e offset (marks.insert ⟨a + 1, offset⟩) (marks'.insert ⟨a, offset⟩) := by
  have marked := unwrap.insert ⟨a + 1, offset⟩ (by simp only; omega) rfl
  rwa [Place.unwrap_inner middle] at marked

theorem insert_outer_again (unwrap : Unwrap a e offset marks marks') (middle : a + 2 ≤ e)
    (inner : ⟨a + 1, offset⟩ ∈ marks) : Unwrap a e offset (marks.insert ⟨a, offset⟩) marks' := by
  have marked := (unwrap.mem_star_iff middle).mpr (.inr inner)
  rw [← Place.unwrap_outer a e offset] at marked
  exact unwrap.insert_again ⟨a, offset⟩ (by simp only; omega) rfl marked

theorem insert_inner_again (unwrap : Unwrap a e offset marks marks') (middle : a + 2 ≤ e)
    (outer : ⟨a, offset⟩ ∈ marks) :
    Unwrap a e offset (marks.insert ⟨a + 1, offset⟩) marks' := by
  have marked := (unwrap.mem_star_iff middle).mpr (.inl outer)
  rw [← Place.unwrap_inner middle offset] at marked
  exact unwrap.insert_again ⟨a + 1, offset⟩ (by simp only; omega) rfl marked

theorem mem_iff (unwrap : Unwrap a e offset marks marks') (place : Place) (middle : a + 2 ≤ e)
    (apart : place.address ≠ e + 1) (other : Program.unwrap a e place.address ≠ a) :
    place.unwrap a e ∈ marks' ↔ place ∈ marks := by
  rw [unwrap.image]
  constructor
  · rintro ⟨mark, mem, same⟩
    obtain ⟨address, offset⟩ := Place.mk.inj same
    have equal := Program.unwrap_injective (by omega) (unwrap.splits mark mem) apart address
    rcases equal with equal | star
    · obtain rfl : mark = place := by cases mark; cases place; simp_all
      exact mem
    · exact absurd (address.symm.trans star) other
  · exact fun mem => ⟨place, mem, rfl⟩

end Unwrap

end Marks

/-! ## Corresponding addresses -/

/--
The address is not at the head of a star, and of the stars, marked as `outer` and `inner` tell at
the present offset, the inner one is not left open outside them nor passed over in the body.
-/
def Apart (a e : Int) (outer inner : Prop) (address : Int) : Prop :=
  ((address < a ∨ e + 2 ≤ address) ∧ (inner → outer)) ∨
    (a + 2 ≤ address ∧ address ≤ e ∧ (outer → inner))

/--
The address in the second program that goes with an address in the first, where `outer` and
`inner` tell which of the stars are marked at the present offset.
-/
inductive Twins (a e : Int) (outer inner : Prop) : Int → Int → Prop where
  | apart {address : Int} (apart : Apart a e outer inner address) :
      Twins a e outer inner address (Program.unwrap a e address)
  /-- At the outer star, which is marked if the inner one is. -/
  | start (left : inner → outer) : Twins a e outer inner a a
  /-- Come from the outer star to the inner one: the one star is passed already. -/
  | entering (marked : outer) (fresh : ¬ inner) : Twins a e outer inner (a + 1) (a + 1)
  /-- Come from the body to the inner star. -/
  | turn (entered : outer → inner) : Twins a e outer inner (a + 1) a
  /-- Come from the inner star to the outer one: the one star is left already. -/
  | leaving {address : Int} (here : address = e + 1 ∨ address = a) (marked : inner)
      (fresh : ¬ outer) : Twins a e outer inner address e

variable {a e : Int} {outer inner outer' inner' : Prop}

theorem Apart.ne {address : Int} (apart : Apart a e outer inner address) (middle : a + 2 ≤ e) :
    address ≠ a ∧ address ≠ a + 1 ∧ address ≠ e + 1 := by
  rcases apart with ⟨outside, -⟩ | ⟨first, last, -⟩ <;> omega

/-- Where control goes from apart of the stars, marked no worse there, the addresses correspond. -/
theorem Apart.next {program program' : Program} {address target : Int}
    {instruction : Instruction} (apart : Apart a e outer inner address) (middle : a + 2 ≤ e)
    (unwraps : program.Unwraps program' a e address)
    (fetched : program.fetch? address = some instruction)
    (mem : target ∈ instruction.successors address)
    (left : (inner → outer) → inner' → outer') (entered : (outer → inner) → outer' → inner') :
    Twins a e outer' inner' target (Program.unwrap a e target) := by
  obtain ⟨_, same, -, flows⟩ := unwraps
  obtain rfl := Option.some.inj (same.symm.trans fetched)
  obtain ⟨fromBody, fromOutside⟩ := flows target mem
  rcases apart with ⟨outside, left'⟩ | ⟨first, last, entered'⟩
  · rcases fromOutside outside with before | behind
    · rcases Int.lt_or_eq_of_le before with before | rfl
      · exact .apart (.inl ⟨.inl before, left left'⟩)
      · rw [Program.unwrap_before (Int.le_refl target)]
        exact .start (left left')
    · exact .apart (.inl ⟨.inr behind, left left'⟩)
  · obtain ⟨above, below⟩ := fromBody first last
    rcases Int.lt_or_eq_of_le above with inside | rfl
    · exact .apart (.inr ⟨by omega, below, entered entered'⟩)
    · rw [(Program.unwrap_eq_start_iff middle).mpr (.inr rfl)]
      exact .turn (entered entered')

theorem Twins.enter (middle : a + 2 ≤ e) (marked : inner) :
    Twins a e outer inner (a + 2) (a + 1) := by
  have moved : Program.unwrap a e (a + 2) = a + 1 := by
    rw [Program.unwrap_inside (by omega) (by omega)]
    omega
  have twins : Twins a e outer inner (a + 2) (Program.unwrap a e (a + 2)) :=
    .apart (.inr ⟨Int.le_refl _, middle, fun _ => marked⟩)
  rwa [moved] at twins

theorem Twins.behind (middle : a + 2 ≤ e) (marked : outer) : Twins a e outer inner (e + 2) e := by
  have moved : Program.unwrap a e (e + 2) = e := by
    rw [Program.unwrap_behind (by omega) (Int.le_refl _)]
    omega
  have twins : Twins a e outer inner (e + 2) (Program.unwrap a e (e + 2)) :=
    .apart (.inl ⟨.inr (Int.le_refl _), fun _ => marked⟩)
  rwa [moved] at twins

namespace Machine

/-- Exploration from the thread has the leaves, but failures may be more or fewer. -/
def ExploresAs (machine : Machine) (text : Array Symbol) (marks : Marks) (thread : Thread)
    (leaves : List Leaf) : Prop :=
  ∃ leaves', machine.HasLeaves text marks thread leaves' ∧
    Leaf.decisive leaves' = Leaf.decisive leaves

namespace ExploresAs

variable {machine : Machine} {text : Array Symbol} {marks : Marks} {thread : Thread}
  {left right : List Leaf}

theorem fork {first second : Thread}
    (step : machine.guardedStep text marks thread = .ok (.fork first second))
    (one : machine.ExploresAs text (marks.insert thread.place) first left)
    (other : machine.ExploresAs text (marks.insert thread.place) second right) :
    machine.ExploresAs text marks thread (left ++ right) := by
  obtain ⟨left', one, sameOne⟩ := one
  obtain ⟨right', other, sameOther⟩ := other
  refine ⟨left' ++ right', .fork step one other, ?_⟩
  rw [Leaf.decisive_append, Leaf.decisive_append, sameOne, sameOther]

theorem advance {next : Thread} {leaves : List Leaf}
    (step : machine.guardedStep text marks thread = .ok (.advance next))
    (rest : machine.ExploresAs text marks next leaves) :
    machine.ExploresAs text marks thread leaves := by
  obtain ⟨leaves', explored, same⟩ := rest
  exact ⟨leaves', .advance step explored, same⟩

theorem append_fails (explored : machine.ExploresAs text marks thread left) :
    machine.ExploresAs text marks thread (left ++ [.fails]) := by
  obtain ⟨leaves', explored, same⟩ := explored
  refine ⟨leaves', explored, ?_⟩
  rw [same, Leaf.decisive_append]
  exact (List.append_nil _).symm

end ExploresAs

/-- In a text with room the second machine runs the first program without the outer star. -/
structure Drops (machine machine' : Machine) (text : Array Symbol) (a e : Int) : Prop where
  roomy : machine.Roomy text
  roomy' : machine'.Roomy text
  unwrapped : machine.program.Unwrapped machine'.program a e 0 machine.program.size

namespace Drops

variable {machine machine' : Machine} {text : Array Symbol} {marks marks' : Marks}
  {thread : Thread}

theorem unwraps (drops : machine.Drops machine' text a e) {address : Int}
    {instruction : Instruction} (fetched : machine.program.fetch? address = some instruction)
    (start : address ≠ a) (again : address ≠ e + 1) :
    machine.program.Unwraps machine'.program a e address := by
  obtain ⟨first, last⟩ := Program.bounds_of_fetch? fetched
  exact drops.unwrapped.unwraps address first last start again

theorem stars (drops : machine.Drops machine' text a e) :
    a + 2 ≤ e ∧ machine.program.fetch? a = some (.split (a + 1) (e + 2)) ∧
      machine.program.fetch? (a + 1) = some (.split (a + 2) (e + 1)) ∧
      machine.program.fetch? (e + 1) = some (.jump a) :=
  ⟨drops.unwrapped.middle, drops.unwrapped.outer, drops.unwrapped.inner, drops.unwrapped.again⟩

theorem star (drops : machine.Drops machine' text a e) :
    machine'.program.fetch? a = some (.split (a + 1) e) := by
  have middle := drops.unwrapped.middle
  have inner := drops.unwrapped.inner
  obtain ⟨_, same, moved, -⟩ := drops.unwraps inner (by omega) (by omega)
  obtain rfl := Option.some.inj (same.symm.trans inner)
  rw [(Program.unwrap_eq_start_iff middle).mpr (.inr rfl), Instruction.relocate,
    Program.unwrap_inside (by omega) (by omega),
    Program.unwrap_inside (by omega) (by omega)] at moved
  rw [moved]
  congr 2 <;> omega

variable {pc address offset : Int} {used : Bool}

/-- Apart of the stars both machines make the same step. -/
theorem guardedStep_apart (drops : machine.Drops machine' text a e) (start : 0 ≤ offset)
    (unwrap : Marks.Unwrap a e offset marks marks') {instruction : Instruction}
    (fetched : machine.program.fetch? pc = some instruction) (apart : Apart a e outer inner pc) :
    machine'.guardedStep text marks' ⟨Program.unwrap a e pc, offset, used⟩ =
      (machine.guardedStep text marks ⟨pc, offset, used⟩).map
        (Step.moved (Program.unwrap a e)) := by
  have middle := drops.unwrapped.middle
  obtain ⟨notOuter, notInner, notAgain⟩ := apart.ne middle
  have moved : machine'.step text ⟨Program.unwrap a e pc, offset, used⟩ =
      (machine.step text ⟨pc, offset, used⟩).map (Step.moved (Program.unwrap a e)) := by
    obtain ⟨_, same, fetched', -⟩ := drops.unwraps fetched notOuter notAgain
    refine step_moved drops.roomy drops.roomy' start same fetched' fun target _ next => ?_
    rw [next]
    exact Program.unwrap_succ notOuter notAgain (by omega)
  have marked : ⟨Program.unwrap a e pc, offset⟩ ∈ marks' ↔ ⟨pc, offset⟩ ∈ marks := by
    refine unwrap.mem_iff ⟨pc, offset⟩ middle notAgain fun star => ?_
    exact ((Program.unwrap_eq_start_iff middle).mp star).elim notOuter notInner
  unfold guardedStep
  rw [moved]
  cases machine.step text ⟨pc, offset, used⟩ with
  | error fault => rfl
  | ok step =>
      cases step with
      | fork first second =>
          simp only [Except.map, Step.moved, Std.ExtTreeSet.contains_iff_mem, Thread.place, marked]
          split <;> rfl
      | _ => rfl

theorem guardedStep_star (drops : machine.Drops machine' text a e)
    (unwrap : Marks.Unwrap a e offset marks marks') (outer : ⟨a, offset⟩ ∉ marks)
    (inner : ⟨a + 1, offset⟩ ∉ marks) :
    machine'.guardedStep text marks' ⟨a, offset, used⟩ =
      .ok (.fork ⟨a + 1, offset, used⟩ ⟨e, offset, used⟩) := by
  refine guardedStep_unmarked drops.star fun marked => ?_
  exact ((unwrap.mem_star_iff drops.unwrapped.middle).mp marked).elim outer inner

theorem fails (drops : machine.Drops machine' text a e) (start : 0 ≤ offset)
    (unwrap : Marks.Unwrap a e offset marks marks')
    (twins : Twins a e (⟨a, offset⟩ ∈ marks) (⟨a + 1, offset⟩ ∈ marks) pc address)
    (step : machine.guardedStep text marks ⟨pc, offset, used⟩ = .ok .fail) :
    machine'.guardedStep text marks' ⟨address, offset, used⟩ = .ok .fail := by
  obtain ⟨middle, outer, inner, again⟩ := drops.stars
  cases twins with
  | apart apart =>
      obtain ⟨instruction, fetched⟩ := fetch?_of_guardedStep step
      exact (drops.guardedStep_apart start unwrap fetched apart).trans
        (congrArg (Except.map _) step)
  | start left =>
      by_cases marked : ⟨a, offset⟩ ∈ marks
      · exact guardedStep_marked drops.star ((unwrap.mem_star_iff middle).mpr (.inl marked))
      · simp [guardedStep_unmarked outer marked] at step
  | entering marked fresh => simp [guardedStep_unmarked inner fresh] at step
  | turn entered =>
      by_cases marked : ⟨a + 1, offset⟩ ∈ marks
      · exact guardedStep_marked drops.star ((unwrap.mem_star_iff middle).mpr (.inr marked))
      · simp [guardedStep_unmarked inner marked] at step
  | leaving here marked fresh =>
      rcases here with rfl | rfl
      · simp [guardedStep_jump again] at step
      · simp [guardedStep_unmarked outer fresh] at step

theorem accepts (drops : machine.Drops machine' text a e) (start : 0 ≤ offset)
    (unwrap : Marks.Unwrap a e offset marks marks')
    (twins : Twins a e outer inner pc address)
    (step : machine.guardedStep text marks ⟨pc, offset, used⟩ = .ok .accept) :
    machine'.guardedStep text marks' ⟨address, offset, used⟩ = .ok .accept := by
  obtain ⟨middle, outer, inner, again⟩ := drops.stars
  have plain := guardedStep_eq_accept_iff.mp step
  cases twins with
  | apart apart =>
      obtain ⟨instruction, fetched⟩ := fetch?_of_guardedStep step
      exact (drops.guardedStep_apart start unwrap fetched apart).trans
        (congrArg (Except.map _) step)
  | start left => exact absurd plain (step_ne_accept outer List.mem_cons_self)
  | entering marked fresh => exact absurd plain (step_ne_accept inner List.mem_cons_self)
  | turn entered => exact absurd plain (step_ne_accept inner List.mem_cons_self)
  | leaving here marked fresh =>
      rcases here with rfl | rfl
      · exact absurd plain (step_ne_accept again List.mem_cons_self)
      · exact absurd plain (step_ne_accept outer List.mem_cons_self)

/-- From a marked inner star nothing comes. -/
theorem inner_fails (drops : machine.Drops machine' text a e) {leaves : List Leaf}
    (marked : ⟨a + 1, offset⟩ ∈ marks)
    (explored : machine.HasLeaves text marks ⟨a + 1, offset, used⟩ leaves) :
    leaves = [.fails] :=
  explored.unique (.fail (guardedStep_marked drops.unwrapped.inner marked))

theorem again_fails (drops : machine.Drops machine' text a e) {leaves : List Leaf}
    (marked : ⟨a, offset⟩ ∈ marks)
    (explored : machine.HasLeaves text marks ⟨e + 1, offset, used⟩ leaves) :
    leaves = [.fails] :=
  explored.unique (.advance (guardedStep_jump drops.unwrapped.again)
    (.fail (guardedStep_marked drops.unwrapped.outer marked)))

theorem advance_apart (drops : machine.Drops machine' text a e)
    (unwrap : Marks.Unwrap a e offset marks marks')
    (apart : Apart a e (⟨a, offset⟩ ∈ marks) (⟨a + 1, offset⟩ ∈ marks) pc) {next : Thread}
    (step : machine.step text ⟨pc, offset, used⟩ = .ok (.advance next)) :
    offset ≤ next.offset ∧
      Twins a e (⟨a, next.offset⟩ ∈ marks) (⟨a + 1, next.offset⟩ ∈ marks) next.pc
        (Program.unwrap a e next.pc) := by
  have middle := drops.unwrapped.middle
  obtain ⟨notOuter, -, notAgain⟩ := apart.ne middle
  obtain ⟨instruction, fetched, mem⟩ := flows_of_advance step
  have unwraps := drops.unwraps fetched notOuter notAgain
  rcases step_eq_advance step with ⟨-, rfl⟩ | ⟨-, same, -⟩
  · have fresh (address : Int) : ⟨address, offset + 1⟩ ∉ marks := fun marked =>
      absurd (unwrap.past _ marked) (Int.not_le_of_gt (Int.lt_succ offset))
    exact ⟨Int.le_of_lt (Int.lt_succ offset), apart.next middle unwraps fetched mem
      (fun _ marked => absurd marked (fresh _)) fun _ marked => absurd marked (fresh _)⟩
  · simp only at same
    rw [same]
    exact ⟨Int.le_refl _, apart.next middle unwraps fetched mem id id⟩

theorem fork_apart (drops : machine.Drops machine' text a e)
    (apart : Apart a e (⟨a, offset⟩ ∈ marks) (⟨a + 1, offset⟩ ∈ marks) pc)
    {first second side : Thread}
    (step : machine.step text ⟨pc, offset, used⟩ = .ok (.fork first second))
    (chosen : side = first ∨ side = second) :
    Twins a e (⟨a, side.offset⟩ ∈ marks.insert ⟨pc, offset⟩)
      (⟨a + 1, side.offset⟩ ∈ marks.insert ⟨pc, offset⟩) side.pc
      (Program.unwrap a e side.pc) := by
  have middle := drops.unwrapped.middle
  obtain ⟨notOuter, notInner, notAgain⟩ := apart.ne middle
  obtain ⟨instruction, fetched, mem⟩ := flows_of_fork step chosen
  have unwraps := drops.unwraps fetched notOuter notAgain
  have same : side.offset = offset := offset_of_fork step chosen
  rw [same, Marks.mem_insert_of_ne notOuter.symm, Marks.mem_insert_of_ne notInner.symm]
  exact apart.next middle unwraps fetched mem id id

/-- Exploration without faults has the same leaves but failures in both machines. -/
theorem exploresAs (drops : machine.Drops machine' text a e) {leaves : List Leaf}
    (explored : machine.HasLeaves text marks thread leaves)
    (noFault : ∀ fault, .faults fault ∉ leaves) (start : 0 ≤ thread.offset)
    (unwrap : Marks.Unwrap a e thread.offset marks marks')
    (twins : Twins a e (⟨a, thread.offset⟩ ∈ marks) (⟨a + 1, thread.offset⟩ ∈ marks) thread.pc
      address) :
    machine'.ExploresAs text marks' ⟨address, thread.offset, thread.headUsed⟩ leaves := by
  obtain ⟨middle, outer, inner, again⟩ := drops.stars
  induction explored generalizing marks' address with
  | fault step => exact absurd List.mem_cons_self (noFault _)
  | fail step => exact ⟨_, .fail (drops.fails start unwrap twins step), rfl⟩
  | accept step => exact ⟨_, .accept (drops.accepts start unwrap twins step), rfl⟩
  | @advance marks thread next leaves step _ ih =>
      obtain ⟨pc, offset, used⟩ := thread
      simp only at start unwrap twins
      cases twins with
      | apart apart =>
          obtain ⟨instruction, fetched⟩ := fetch?_of_guardedStep step
          have step' := (drops.guardedStep_apart start unwrap fetched apart).trans
            (congrArg (Except.map _) step)
          obtain ⟨later, twins⟩ :=
            drops.advance_apart unwrap apart (guardedStep_eq_advance_iff.mp step)
          exact .advance step' (ih noFault (start.trans later) (unwrap.later later) twins)
      | start left => cases (step_split outer).symm.trans (guardedStep_eq_advance_iff.mp step)
      | entering marked fresh =>
          cases (step_split inner).symm.trans (guardedStep_eq_advance_iff.mp step)
      | turn entered => cases (step_split inner).symm.trans (guardedStep_eq_advance_iff.mp step)
      | leaving here marked fresh =>
          rcases here with rfl | rfl
          · cases (guardedStep_jump again).symm.trans step
            exact ih noFault start unwrap (.leaving (.inr rfl) marked fresh)
          · cases (step_split outer).symm.trans (guardedStep_eq_advance_iff.mp step)
  | @fork marks thread first second left right step one other ihOne ihOther =>
      obtain ⟨pc, offset, used⟩ := thread
      simp only at start unwrap twins
      have noLeft : ∀ fault, .faults fault ∉ left :=
        fun fault mem => noFault fault (List.mem_append_left _ mem)
      have noRight : ∀ fault, .faults fault ∉ right :=
        fun fault mem => noFault fault (List.mem_append_right _ mem)
      obtain ⟨plain, unmarked⟩ := guardedStep_eq_fork_iff.mp step
      cases twins with
      | apart apart =>
          obtain ⟨instruction, fetched⟩ := fetch?_of_guardedStep step
          have step' := (drops.guardedStep_apart start unwrap fetched apart).trans
            (congrArg (Except.map _) step)
          have twinsOne := drops.fork_apart apart plain (.inl rfl)
          have twinsOther := drops.fork_apart apart plain (.inr rfl)
          have unwrap' := unwrap.insert ⟨pc, offset⟩ (apart.ne middle).2.2 rfl
          have sameOne := offset_of_fork plain (.inl rfl)
          have sameOther := offset_of_fork plain (.inr rfl)
          exact .fork step'
            (ihOne noLeft (start.trans sameOne.ge) (unwrap'.later sameOne.ge) twinsOne)
            (ihOther noRight (start.trans sameOther.ge) (unwrap'.later sameOther.ge) twinsOther)
      | start left =>
          cases (step_split outer).symm.trans plain
          have fresh : ⟨a + 1, offset⟩ ∉ marks := fun marked => unmarked (left marked)
          have unwrap' := unwrap.insert_outer middle
          have fresh' : ⟨a + 1, offset⟩ ∉ marks.insert ⟨a, offset⟩ := fun mem =>
            fresh ((Marks.mem_insert_of_ne (Int.lt_succ a).ne').mp mem)
          exact .fork (drops.guardedStep_star unwrap unmarked fresh)
            (ihOne noLeft start unwrap' (.entering Marks.mem_insert_self fresh'))
            (ihOther noRight start unwrap' (.behind middle Marks.mem_insert_self))
      | entering marked fresh =>
          cases (step_split inner).symm.trans plain
          have unwrap' := unwrap.insert_inner_again middle marked
          rw [drops.again_fails (Marks.mem_insert.mpr (.inr marked)) other]
          exact .append_fails (ihOne noLeft start unwrap' (.enter middle Marks.mem_insert_self))
      | turn entered =>
          cases (step_split inner).symm.trans plain
          have fresh : ⟨a, offset⟩ ∉ marks := fun marked => unmarked (entered marked)
          have unwrap' := unwrap.insert_inner middle
          have fresh' : ⟨a, offset⟩ ∉ marks.insert ⟨a + 1, offset⟩ := fun mem =>
            fresh ((Marks.mem_insert_of_ne (Int.lt_succ a).ne).mp mem)
          exact .fork (drops.guardedStep_star unwrap fresh unmarked)
            (ihOne noLeft start unwrap' (.enter middle Marks.mem_insert_self))
            (ihOther noRight start unwrap' (.leaving (.inl rfl) Marks.mem_insert_self fresh'))
      | leaving here marked fresh =>
          rcases here with rfl | rfl
          · cases (step_jump again).symm.trans plain
          · cases (step_split outer).symm.trans plain
            have unwrap' := unwrap.insert_outer_again middle marked
            rw [drops.inner_fails (Marks.mem_insert.mpr (.inr marked)) one]
            exact ihOther noRight start unwrap' (.behind middle Marks.mem_insert_self)

end Drops

end Machine

end PatternMachine

import PatternMachine.Proofs.Machine.Agreement

/-!
# Surrounding text

A line may stand inside a longer one. A path in the line is then a path in the longer line, moved
to where the line stands there, unless it passes an anchor that no longer holds: the start anchor
if there is text before the line, the end anchor if there is text behind it. So text at a side on
which the program has no anchor cannot make a search miss a match.
-/

namespace PatternMachine

/-- The spot in a longer line at which a spot of the line stands. -/
def Spot.moved (shift : Nat) (spot : Spot) : Spot :=
  ⟨spot.address, shift + spot.position⟩

namespace Program

variable {program : Program} {line whole : Array Symbol} {shift start : Nat} {spot next : Spot}

/--
The text stands in the whole from the shift on. Where the program has a start anchor the two begin
together, where it has an end anchor they end together.
-/
structure Embeds (program : Program) (text whole : Array Symbol) (shift : Nat) : Prop where
  symbols {position : Nat} {symbol : Symbol} :
    text[position]? = some symbol → whole[shift + position]? = some symbol
  start : .head ∈ program.code → shift = 0
  stop : .matchEnd ∈ program.code → shift + text.size = whole.size

theorem Embeds.surrounded (before line after : Array Symbol)
    (front : .head ∉ program.code ∨ before = #[])
    (back : .matchEnd ∉ program.code ∨ after = #[]) :
    program.Embeds line (before ++ line ++ after) before.size where
  symbols := by
    intro position symbol found
    have inside := (Array.getElem?_eq_some_iff.mp found).1
    rw [Array.append_assoc, Array.getElem?_append_right (Nat.le_add_right _ _),
      Nat.add_sub_cancel_left, Array.getElem?_append_left inside, found]
  start := by
    intro anchored
    rw [front.resolve_left (not_not_intro anchored), Array.size_empty]
  stop := by
    intro anchored
    rw [back.resolve_left (not_not_intro anchored), Array.append_empty, Array.size_append]

namespace Embeds

variable (embeds : program.Embeds line whole shift)
include embeds

theorem lt_size {position : Nat} (inside : position < line.size) :
    shift + position < whole.size := by
  have found := embeds.symbols (Array.getElem?_eq_getElem inside)
  exact (Array.getElem?_eq_some_iff.mp found).1

theorem movesIn (move : program.MovesIn line spot next) :
    program.MovesIn whole (spot.moved shift) (next.moved shift) := by
  cases move with
  | literal fetched found => exact .literal fetched (embeds.symbols found)
  | any fetched inside => exact .any fetched (embeds.lt_size inside)
  | head fetched =>
      obtain rfl := embeds.start (Machine.mem_code_of_fetch? fetched)
      exact .head fetched
  | jump fetched => exact .jump fetched
  | split fetched chosen => exact .split fetched chosen

theorem acceptsIn (accepts : program.AcceptsIn line spot) :
    program.AcceptsIn whole (spot.moved shift) := by
  cases accepts with
  | accept fetched => exact .accept fetched
  | matchEnd fetched =>
      rw [Spot.moved, embeds.stop (Machine.mem_code_of_fetch? fetched)]
      exact .matchEnd fetched

theorem matchesFrom (matched : program.MatchesFrom line start) :
    program.MatchesFrom whole (shift + start) := by
  obtain ⟨final, path, accepts⟩ := matched
  have moved := path.lift (Spot.moved shift) fun _ _ => embeds.movesIn
  exact ⟨final.moved shift, moved, embeds.acceptsIn accepts⟩

end Embeds

end Program

namespace Machine

variable {machine : Machine}

/--
A search that returns finds a line that stands inside the one that is searched, if the program has
no anchor at a side on which there is more text.
-/
theorem answer_of_surrounded {before line after : Array Symbol} {answer : Bool}
    (front : .head ∉ machine.program.code ∨ before = #[])
    (back : .matchEnd ∉ machine.program.code ∨ after = #[])
    (hit : (machine.matchLine .depthFirst line).value = .ok true)
    (ok : (machine.matchLine .depthFirst (before ++ line ++ after)).value = .ok answer) :
    answer = true := by
  obtain ⟨start, mem, verdict, run, holds⟩ := (searchAt_eq_ok hit).1 rfl
  have inside := mem_offsets_iff.mp mem
  have matched := (holdsAt_iff_matchesFrom inside run).mp holds
  have embeds := Program.Embeds.surrounded before line after front back
  have inside' : before.size + start ≤ (before ++ line ++ after).size := by
    rw [Array.size_append, Array.size_append]
    omega
  refine Bool.eq_true_of_not_eq_false fun miss => ?_
  -- A search without a match has run at every offset, so also where the match begins.
  obtain ⟨other, otherRun, fails⟩ := (searchAt_eq_ok ok).2 miss _ (mem_offsets_iff.mpr inside')
  rw [(holdsAt_iff_matchesFrom inside' otherRun).mpr (embeds.matchesFrom matched)] at fails
  cases fails

/--
Surrounding text cannot destroy an unanchored match. Where the searches return, a program without
end anchors that finds a line finds it also with more text behind, and one without start anchors
also with more text before.
-/
theorem matchLine_surrounded (machine : Machine) :
    (.matchEnd ∉ machine.program.code → ∀ line after answer,
      (machine.matchLine .depthFirst line).value = .ok true →
      (machine.matchLine .depthFirst (line ++ after)).value = .ok answer → answer = true) ∧
    (.head ∉ machine.program.code → ∀ before line answer,
      (machine.matchLine .depthFirst line).value = .ok true →
      (machine.matchLine .depthFirst (before ++ line)).value = .ok answer → answer = true) := by
  constructor
  · intro unanchored line after answer hit ok
    rw [← line.empty_append] at ok
    exact answer_of_surrounded (.inr rfl) (.inl unanchored) hit ok
  · intro unanchored before line answer hit ok
    rw [← (before ++ line).append_empty] at ok
    exact answer_of_surrounded (.inl unanchored) (.inr rfl) hit ok

def endAnchored : Machine :=
  ⟨⟨#[.literal "a", .matchEnd]⟩, {}⟩

/-- The text that is free of the anchor keeps the match, the other text destroys it. -/
theorem matchLine_surrounded_anchors :
    .matchEnd ∉ anchoredOnly.program.code ∧
      (anchoredOnly.matchLine .depthFirst #["a"]).value = .ok true ∧
      (∀ answer, (anchoredOnly.matchLine .depthFirst (#["a"] ++ #["b"])).value = .ok answer →
        answer = true) ∧
      (anchoredOnly.matchLine .depthFirst (#["b"] ++ #["a"])).value = .ok false ∧
      .head ∉ endAnchored.program.code ∧
      (endAnchored.matchLine .depthFirst #["a"]).value = .ok true ∧
      (∀ answer, (endAnchored.matchLine .depthFirst (#["b"] ++ #["a"])).value = .ok answer →
        answer = true) ∧
      (endAnchored.matchLine .depthFirst (#["a"] ++ #["b"])).value = .ok false := by
  have noEnd : .matchEnd ∉ anchoredOnly.program.code := by decide +kernel
  have noStart : .head ∉ endAnchored.program.code := by decide +kernel
  have hit : (anchoredOnly.matchLine .depthFirst #["a"]).value = .ok true := by decide +kernel
  have hit' : (endAnchored.matchLine .depthFirst #["a"]).value = .ok true := by decide +kernel
  refine ⟨noEnd, hit, ?_, by decide +kernel, noStart, hit', ?_, by decide +kernel⟩
  · exact fun answer => (matchLine_surrounded anchoredOnly).1 noEnd _ _ answer hit
  · exact fun answer => (matchLine_surrounded endAnchored).2 noStart _ _ answer hit'

end Machine

end PatternMachine

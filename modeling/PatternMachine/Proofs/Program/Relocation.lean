import Mathlib.Tactic.SplitIfs
import PatternMachine.Proofs.Pattern.Collapse
import PatternMachine.Proofs.Program.Region

/-!
# Relocated code

Where two programs hold the same pattern, the code in the one is that in the other with its
targets moved. Where one pattern is a single collapse of the other, the one program is the other
without the two instructions of the outer star: behind these all addresses are lower by two, and
between them by one.
-/

namespace PatternMachine

namespace Instruction

def relocate (move : Int → Int) : Instruction → Instruction
  | .jump target => .jump (move target)
  | .split first second => .split (move first) (move second)
  | instruction => instruction

theorem relocate_congr {move move' : Int → Int} {instruction : Instruction} (address : Int)
    (same : ∀ target ∈ instruction.successors address, move target = move' target) :
    instruction.relocate move = instruction.relocate move' := by
  cases instruction with
  | jump target => simp_all [relocate, successors]
  | split first second => simp_all [relocate, successors]
  | _ => rfl

end Instruction

namespace Program

variable {program program' : Program} {pattern pattern' : Pattern}

/-! ## Equal patterns -/

/-- The instruction at the address is that of the other program further on. -/
def Shifted (program program' : Program) (delta address : Int) : Prop :=
  ∃ instruction, program.fetch? address = some instruction ∧
    program'.fetch? (address + delta) = some (instruction.relocate (· + delta))

/-- Where two programs hold the same pattern the code is the same but for a shift. -/
theorem Holds.shifted (delta : Int) {a b c d : Int} (holds : program.Holds pattern a b)
    (holds' : program'.Holds pattern c d) (start : c = a + delta) :
    d = b + delta ∧ Between (program.Shifted program' delta) a b := by
  induction holds generalizing c d with
  | literal fetched =>
      cases holds' with
      | literal fetched' => exact ⟨by omega, .single ⟨_, fetched, start ▸ fetched'⟩⟩
  | wildcard fetched =>
      cases holds' with
      | wildcard fetched' => exact ⟨by omega, .single ⟨_, fetched, start ▸ fetched'⟩⟩
  | lineStart fetched =>
      cases holds' with
      | lineStart fetched' => exact ⟨by omega, .single ⟨_, fetched, start ▸ fetched'⟩⟩
  | lineEnd fetched =>
      cases holds' with
      | lineEnd fetched' => exact ⟨by omega, .single ⟨_, fetched, start ▸ fetched'⟩⟩
  | nil =>
      cases holds' with
      | nil => exact ⟨start, .empty⟩
  | cons _ _ ihOne ihOthers =>
      cases holds' with
      | cons one' others' =>
          obtain ⟨middle, front⟩ := ihOne one' start
          obtain ⟨stop, back⟩ := ihOthers others' middle
          exact ⟨stop, front.append back⟩
  | alternative split _ exit _ ihOne ihOther =>
      cases holds' with
      | alternative split' one' exit' other' =>
          obtain ⟨middle, front⟩ := ihOne one' (by omega)
          obtain ⟨stop, back⟩ := ihOther other' (by omega)
          subst start middle stop
          refine ⟨rfl, .cons ⟨_, split, ?_⟩ (.append front (.cons ⟨_, exit, exit'⟩ back))⟩
          rw [split', Instruction.relocate]
          congr 2 <;> omega
  | oneOrMore _ split ih =>
      cases holds' with
      | oneOrMore once' split' =>
          obtain ⟨middle, body⟩ := ih once' start
          subst start middle
          refine ⟨by omega, .append body (.single ⟨_, split, ?_⟩)⟩
          rw [split', Instruction.relocate]
          congr 2
          omega
  | zeroOrMore split _ back ih =>
      cases holds' with
      | zeroOrMore split' once' back' =>
          obtain ⟨middle, body⟩ := ih once' (by omega)
          subst start middle
          refine ⟨by omega, .cons ⟨_, split, ?_⟩ (.append body (.single ⟨_, back, back'⟩))⟩
          rw [split', Instruction.relocate]
          congr 2 <;> omega
  | zeroOrOne split _ ih =>
      cases holds' with
      | zeroOrOne split' once' =>
          obtain ⟨stop, body⟩ := ih once' (by omega)
          subst start stop
          refine ⟨rfl, .cons ⟨_, split, ?_⟩ body⟩
          rw [split', Instruction.relocate]
          congr 2
          omega

theorem Holds.shifted_self {a b c : Int} (holds : program.Holds pattern a b)
    (holds' : program'.Holds pattern a c) :
    c = b ∧ Between (program.Shifted program' 0) a b := by
  obtain ⟨stop, shifted⟩ := holds.shifted 0 holds' (Int.add_zero a).symm
  exact ⟨stop.trans (Int.add_zero b), shifted⟩

theorem Holds.ungrouped {a b : Int} (holds : program.Holds pattern a b) :
    program.Holds pattern.ungrouped a b := by
  fun_induction Pattern.ungrouped pattern with
  | case1 item ih =>
      cases holds with
      | cons one others =>
          cases others with
          | nil => exact ih one
  | case2 pattern => exact holds

/-! ## A dropped star -/

/--
The address in the program without an outer star, which splits at `a` and jumps back at `e + 1`:
the inner star begins where the outer one did.
-/
def unwrap (a e address : Int) : Int :=
  if address ≤ a then address else if address ≤ e + 1 then address - 1 else address - 2

section Unwrap

variable {a e address : Int}

theorem unwrap_before (before : address ≤ a) : unwrap a e address = address :=
  if_pos before

theorem unwrap_inside (left : a < address) (right : address ≤ e + 1) :
    unwrap a e address = address - 1 := by
  rw [unwrap, if_neg (by omega), if_pos right]

theorem unwrap_behind (middle : a ≤ e) (behind : e + 2 ≤ address) :
    unwrap a e address = address - 2 := by
  rw [unwrap, if_neg (by omega), if_neg (by omega)]

theorem unwrap_outside {address' : Int} (middle : a ≤ e)
    (outside : address ≤ a ∧ address' = address ∨ e + 2 ≤ address ∧ address' = address - 2) :
    unwrap a e address = address' := by
  rcases outside with ⟨before, rfl⟩ | ⟨behind, rfl⟩
  · exact unwrap_before before
  · exact unwrap_behind middle behind

theorem unwrap_succ (start : address ≠ a) (again : address ≠ e + 1) (middle : a ≤ e) :
    unwrap a e (address + 1) = unwrap a e address + 1 := by
  unfold unwrap
  split_ifs <;> omega

/-- Only the two stars come to stand at one address, but for the jump between them. -/
theorem unwrap_injective {other : Int} (middle : a ≤ e) (again : address ≠ e + 1)
    (again' : other ≠ e + 1) (same : unwrap a e address = unwrap a e other) :
    address = other ∨ unwrap a e address = a := by
  unfold unwrap at same ⊢
  split_ifs at same ⊢ <;> omega

theorem unwrap_eq_start_iff (middle : a + 2 ≤ e) :
    unwrap a e address = a ↔ address = a ∨ address = a + 1 := by
  unfold unwrap
  split_ifs <;> omega

end Unwrap

/--
The instruction at the address is in the program without the outer star too. Control passes from
the body of the inner star only to the body and its star, and from elsewhere not into the stars
but at their start.
-/
def Unwraps (program program' : Program) (a e address : Int) : Prop :=
  ∃ instruction, program.fetch? address = some instruction ∧
    program'.fetch? (unwrap a e address) = some (instruction.relocate (unwrap a e)) ∧
    ∀ target ∈ instruction.successors address,
      (a + 2 ≤ address → address ≤ e → a + 1 ≤ target ∧ target ≤ e) ∧
      (address < a ∨ e + 2 ≤ address → target ≤ a ∨ e + 2 ≤ target)

/--
Between `m` and `n` the second program is the first without the outer of two stars, the inner of
which has its body between `a + 2` and `e`.
-/
structure Unwrapped (program program' : Program) (a e m n : Int) : Prop where
  left : m ≤ a
  middle : a + 2 ≤ e
  right : e + 2 ≤ n
  outer : program.fetch? a = some (.split (a + 1) (e + 2))
  inner : program.fetch? (a + 1) = some (.split (a + 2) (e + 1))
  again : program.fetch? (e + 1) = some (.jump a)
  unwraps : Between (fun address => address ≠ a → address ≠ e + 1 →
    program.Unwraps program' a e address) m n

variable {a e m n : Int}

/-- Code that is apart from the stars, or is the body, is only shifted. -/
theorem Holds.unwraps {b c delta : Int} (holds : program.Holds pattern b c)
    (shifted : Between (program.Shifted program' delta) b c)
    (moves : ∀ address, b ≤ address → address ≤ c → unwrap a e address = address + delta)
    (apart : c ≤ a ∨ e + 2 ≤ b ∨ (b = a + 2 ∧ c = e)) :
    Between (program.Unwraps program' a e) b c := by
  intro address first last
  obtain ⟨instruction, fetched, fetched'⟩ := shifted address first last
  obtain ⟨_, same, successors, -⟩ := holds.stays address first last
  obtain rfl := Option.some.inj (fetched.symm.trans same)
  refine ⟨instruction, fetched, ?_, fun target mem => ?_⟩
  · rw [moves address first last.le, fetched']
    congr 1
    refine Instruction.relocate_congr address fun target mem => ?_
    obtain ⟨above, below⟩ := successors target mem
    exact (moves target above below).symm
  · obtain ⟨above, below⟩ := successors target mem
    exact ⟨by omega, by omega⟩

theorem Holds.unwraps_before {b c : Int} (holds : program.Holds pattern b c)
    (shifted : Between (program.Shifted program' 0) b c) (before : c ≤ a) :
    Between (program.Unwraps program' a e) b c := by
  refine holds.unwraps shifted (fun address _ last => ?_) (.inl before)
  rw [unwrap_before (last.trans before), Int.add_zero]

theorem Holds.unwraps_behind {b c : Int} (holds : program.Holds pattern b c)
    (shifted : Between (program.Shifted program' (-2)) b c) (middle : a ≤ e)
    (behind : e + 2 ≤ b) : Between (program.Unwraps program' a e) b c := by
  refine holds.unwraps shifted (fun address first _ => ?_) (.inr (.inl behind))
  rw [unwrap_behind middle (behind.trans first)]
  rfl

namespace Unwraps

variable {address address' : Int}

theorem of_outside {instruction instruction' : Instruction}
    (fetched : program.fetch? address = some instruction)
    (fetched' : program'.fetch? address' = some instruction')
    (moved : unwrap a e address = address')
    (relocated : instruction.relocate (unwrap a e) = instruction')
    (outside : address < a ∨ e + 2 ≤ address)
    (apart : ∀ target ∈ instruction.successors address, target ≤ a ∨ e + 2 ≤ target) :
    program.Unwraps program' a e address :=
  ⟨instruction, fetched, by rw [moved, relocated, fetched'],
    fun target mem => ⟨by omega, fun _ => apart target mem⟩⟩

theorem of_jump {target target' : Int} (middle : a ≤ e)
    (fetched : program.fetch? address = some (.jump target))
    (fetched' : program'.fetch? address' = some (.jump target'))
    (here : address < a ∧ address' = address ∨ e + 2 ≤ address ∧ address' = address - 2)
    (there : target ≤ a ∧ target' = target ∨ e + 2 ≤ target ∧ target' = target - 2) :
    program.Unwraps program' a e address := by
  refine .of_outside fetched fetched' (unwrap_outside middle (by omega)) ?_ (by omega) ?_
  · rw [Instruction.relocate, unwrap_outside middle there]
  · simp only [Instruction.successors, List.mem_singleton, forall_eq]
    omega

theorem of_split {one one' other other' : Int} (middle : a ≤ e)
    (fetched : program.fetch? address = some (.split one other))
    (fetched' : program'.fetch? address' = some (.split one' other'))
    (here : address < a ∧ address' = address ∨ e + 2 ≤ address ∧ address' = address - 2)
    (first : one ≤ a ∧ one' = one ∨ e + 2 ≤ one ∧ one' = one - 2)
    (second : other ≤ a ∧ other' = other ∨ e + 2 ≤ other ∧ other' = other - 2) :
    program.Unwraps program' a e address := by
  refine .of_outside fetched fetched' (unwrap_outside middle (by omega)) ?_ (by omega) ?_
  · rw [Instruction.relocate, unwrap_outside middle first, unwrap_outside middle second]
  · simp only [Instruction.successors, List.forall_mem_cons, List.not_mem_nil, false_imp_iff,
      implies_true, and_true]
    omega

end Unwraps

namespace Unwrapped

theorem bounds (unwrapped : program.Unwrapped program' a e m n) :
    m ≤ a ∧ a + 2 ≤ e ∧ e + 2 ≤ n :=
  ⟨unwrapped.left, unwrapped.middle, unwrapped.right⟩

theorem extend {m' n' : Int} (unwrapped : program.Unwrapped program' a e m n)
    (front : Between (program.Unwraps program' a e) m' m) (before : m' ≤ m)
    (back : Between (program.Unwraps program' a e) n n') (behind : n ≤ n') :
    program.Unwrapped program' a e m' n' where
  left := before.trans unwrapped.left
  middle := unwrapped.middle
  right := unwrapped.right.trans behind
  outer := unwrapped.outer
  inner := unwrapped.inner
  again := unwrapped.again
  unwraps := .append (front.imp fun _ _ _ unwraps _ _ => unwraps)
    (.append unwrapped.unwraps (back.imp fun _ _ _ unwraps _ _ => unwraps))

/-- Two stars around one body, and one star around it. -/
theorem of_stars {body : Pattern} (outer : program.fetch? a = some (.split (a + 1) (e + 2)))
    (inner : program.fetch? (a + 1) = some (.split (a + 2) (e + 1)))
    (once : program.Holds body (a + 2) e) (back : program.fetch? e = some (.jump (a + 1)))
    (again : program.fetch? (e + 1) = some (.jump a))
    (split : program'.fetch? a = some (.split (a + 1) e))
    (shifted : Between (program.Shifted program' (-1)) (a + 2) e)
    (back' : program'.fetch? (e - 1) = some (.jump a)) :
    program.Unwrapped program' a e a (e + 2) := by
  have middle := once.le
  have start : unwrap a e (a + 1) = a := by
    rw [unwrap_inside (by omega) (by omega), Int.add_sub_cancel]
  have inside : Between (program.Unwraps program' a e) (a + 2) e := by
    refine once.unwraps shifted (fun address first last => ?_) (.inr (.inr ⟨rfl, rfl⟩))
    rw [unwrap_inside (by omega) (by omega)]
    rfl
  have entry : program.Unwraps program' a e (a + 1) := by
    refine ⟨_, inner, ?_, fun target mem => ⟨by omega, by omega⟩⟩
    rw [start, split, Instruction.relocate, unwrap_inside (by omega) (by omega),
      unwrap_inside (by omega) (by omega)]
    congr 2 <;> omega
  have turn : program.Unwraps program' a e e := by
    refine ⟨_, back, ?_, fun target mem => ⟨fun _ _ => ?_, by omega⟩⟩
    · rw [unwrap_inside (by omega) (by omega), Instruction.relocate, start]
      exact back'
    · obtain rfl : target = a + 1 := by simpa [Instruction.successors] using mem
      exact ⟨Int.le_refl _, by omega⟩
  refine ⟨Int.le_refl a, middle, Int.le_refl _, outer, inner, again, ?_⟩
  intro address first last start again
  rcases Int.lt_or_le address (a + 2) with before | behind
  · obtain rfl : address = a + 1 := by omega
    exact entry
  · rcases Int.lt_or_le address e with before | behind'
    · exact inside address behind before
    · obtain rfl : address = e := by omega
      exact turn

end Unwrapped

end Program

/-! ## A single collapse -/

namespace Pattern

open Program

variable {program program' : Program}

theorem Collapses.unwrapped {pattern pattern' : Pattern} (collapses : Collapses pattern pattern')
    {m n n' : Int} (holds : program.Holds pattern m n) (holds' : program'.Holds pattern' m n') :
    n' = n - 2 ∧ ∃ a e, program.Unwrapped program' a e m n := by
  induction collapses generalizing m n n' with
  | star same =>
      cases holds with
      | zeroOrMore outer once again =>
          have grouped := once.ungrouped
          rw [same] at grouped
          cases grouped with
          | @zeroOrMore _ _ e inner body back =>
              cases holds' with
              | zeroOrMore split' body' back' =>
                  obtain ⟨stop, shifted⟩ := body.shifted (-1) body' (by omega)
                  subst stop
                  rw [Int.add_assoc] at outer inner body shifted
                  rw [Int.neg_add_cancel_right] at split'
                  have stars : program.Unwrapped program' m e m (e + 2) :=
                    .of_stars outer inner body back again split' shifted back'
                  rw [show e + 1 + 1 = e + 2 by omega]
                  exact ⟨by omega, m, e, stars⟩
  | head _ ih =>
      cases holds with
      | cons one others =>
          cases holds' with
          | cons one' others' =>
              obtain ⟨rfl, a, e, unwrapped⟩ := ih one one'
              obtain ⟨stop, shifted⟩ := others.shifted (-2) others' rfl
              obtain ⟨left, inside, right⟩ := unwrapped.bounds
              have middle : a ≤ e := by omega
              have back := others.unwraps_behind shifted middle right
              exact ⟨stop, a, e, unwrapped.extend .empty (Int.le_refl m) back others.le⟩
  | tail _ ih =>
      cases holds with
      | cons one others =>
          cases holds' with
          | cons one' others' =>
              obtain ⟨rfl, shifted⟩ := one.shifted_self one'
              obtain ⟨stop, a, e, unwrapped⟩ := ih others others'
              have front : Between (program.Unwraps program' a e) m _ :=
                one.unwraps_before shifted unwrapped.left
              exact ⟨stop, a, e, unwrapped.extend front one.le .empty (Int.le_refl n)⟩
  | first _ ih =>
      cases holds with
      | alternative split one exit other =>
          cases holds' with
          | alternative split' one' exit' other' =>
              obtain ⟨rfl, a, e, unwrapped⟩ := ih one one'
              obtain ⟨stop, shifted⟩ := other.shifted (-2) other' (by omega)
              obtain ⟨left, inside, right⟩ := unwrapped.bounds
              have le := other.le
              have middle : a ≤ e := by omega
              have front := Unwraps.of_split middle split split' (by omega) (by omega) (by omega)
              have exit := Unwraps.of_jump middle exit exit' (by omega) (by omega)
              have back := other.unwraps_behind shifted middle (by omega)
              exact ⟨stop, a, e,
                unwrapped.extend (.single front) (by omega) (.cons exit back) (by omega)⟩
  | second _ ih =>
      cases holds with
      | alternative split one exit other =>
          cases holds' with
          | alternative split' one' exit' other' =>
              obtain ⟨rfl, shifted⟩ := one.shifted_self one'
              obtain ⟨stop, a, e, unwrapped⟩ := ih other other'
              obtain ⟨left, inside, right⟩ := unwrapped.bounds
              have le := one.le
              have middle : a ≤ e := by omega
              have fork := Unwraps.of_split middle split split' (by omega) (by omega) (by omega)
              have front : Between (program.Unwraps program' a e) (m + 1) _ :=
                one.unwraps_before shifted (by omega)
              have exit := Unwraps.of_jump middle exit exit' (by omega) (by omega)
              exact ⟨stop, a, e, unwrapped.extend (.cons fork (.append front (.single exit)))
                (by omega) .empty (Int.le_refl n)⟩
  | body _ ih =>
      cases holds with
      | oneOrMore once split =>
          cases holds' with
          | oneOrMore once' split' =>
              obtain ⟨rfl, a, e, unwrapped⟩ := ih once once'
              obtain ⟨left, inside, right⟩ := unwrapped.bounds
              have middle : a ≤ e := by omega
              have back := Unwraps.of_split middle split split' (by omega) (by omega) (by omega)
              exact ⟨by omega, a, e,
                unwrapped.extend .empty (Int.le_refl m) (.single back) (by omega)⟩
      | zeroOrMore split once back =>
          cases holds' with
          | zeroOrMore split' once' back' =>
              obtain ⟨rfl, a, e, unwrapped⟩ := ih once once'
              obtain ⟨left, inside, right⟩ := unwrapped.bounds
              have middle : a ≤ e := by omega
              have front := Unwraps.of_split middle split split' (by omega) (by omega) (by omega)
              have back := Unwraps.of_jump middle back back' (by omega) (by omega)
              exact ⟨by omega, a, e,
                unwrapped.extend (.single front) (by omega) (.single back) (by omega)⟩
      | zeroOrOne split once =>
          cases holds' with
          | zeroOrOne split' once' =>
              obtain ⟨stop, a, e, unwrapped⟩ := ih once once'
              obtain ⟨left, inside, right⟩ := unwrapped.bounds
              have middle : a ≤ e := by omega
              have front := Unwraps.of_split middle split split' (by omega) (by omega) (by omega)
              exact ⟨stop, a, e,
                unwrapped.extend (.single front) (by omega) .empty (Int.le_refl n)⟩

end Pattern

end PatternMachine

import PatternMachine.Proofs.Machine.Room
import PatternMachine.Proofs.Program.Code

/-!
# Regions

A program holds a pattern between two addresses when the code of the pattern stands there.
Control that enters such a region stays in it or leaves it at its end, and every jump in it goes
forward or back to a split.
-/

namespace PatternMachine

def Between (property : Int → Prop) (a b : Int) : Prop :=
  ∀ address, a ≤ address → address < b → property address

namespace Between

variable {property : Int → Prop} {a b c : Int}

theorem empty : Between property a a :=
  fun _ first last => absurd (first.trans_lt last) (Int.lt_irrefl a)

theorem cons (here : property a) (rest : Between property (a + 1) b) : Between property a b := by
  intro address first last
  rcases Int.lt_or_eq_of_le first with inner | rfl
  · exact rest address inner last
  · exact here

theorem single (here : property a) : Between property a (a + 1) :=
  cons here empty

theorem append (front : Between property a b) (back : Between property b c) :
    Between property a c := by
  intro address first last
  rcases Int.lt_or_le address b with inside | beyond
  · exact front address first inside
  · exact back address beyond last

theorem imp {weaker : Int → Prop} (between : Between property a b)
    (implies : ∀ address, a ≤ address → address < b → property address → weaker address) :
    Between weaker a b :=
  fun address first last => implies address first last (between address first last)

end Between

namespace Program

variable {program : Program} {pattern : Pattern}

/-- The code of the pattern stands from the first address up to the second. -/
inductive Holds (program : Program) : Pattern → Int → Int → Prop where
  | literal {symbol : Symbol} {a : Int} (fetched : program.fetch? a = some (.literal symbol)) :
      Holds program (.literal symbol) a (a + 1)
  | wildcard {a : Int} (fetched : program.fetch? a = some .any) :
      Holds program .wildcard a (a + 1)
  | lineStart {a : Int} (fetched : program.fetch? a = some .head) :
      Holds program .lineStart a (a + 1)
  | lineEnd {a : Int} (fetched : program.fetch? a = some .matchEnd) :
      Holds program .lineEnd a (a + 1)
  | nil {a : Int} : Holds program (.sequence []) a a
  | cons {item : Pattern} {rest : List Pattern} {a b c : Int} (one : Holds program item a b)
      (others : Holds program (.sequence rest) b c) :
      Holds program (.sequence (item :: rest)) a c
  | alternative {first second : Pattern} {a b c : Int}
      (split : program.fetch? a = some (.split (a + 1) (b + 1)))
      (one : Holds program first (a + 1) b) (exit : program.fetch? b = some (.jump c))
      (other : Holds program second (b + 1) c) :
      Holds program (.alternative first second) a c
  | oneOrMore {body : Pattern} {a b : Int} (once : Holds program body a b)
      (split : program.fetch? b = some (.split a (b + 1))) :
      Holds program (.repetition .oneOrMore body) a (b + 1)
  | zeroOrMore {body : Pattern} {a b : Int}
      (split : program.fetch? a = some (.split (a + 1) (b + 1)))
      (once : Holds program body (a + 1) b) (back : program.fetch? b = some (.jump a)) :
      Holds program (.repetition .zeroOrMore body) a (b + 1)
  | zeroOrOne {body : Pattern} {a b : Int}
      (split : program.fetch? a = some (.split (a + 1) b))
      (once : Holds program body (a + 1) b) :
      Holds program (.repetition .zeroOrOne body) a b

/-! ## Code in a program -/

theorem fetch?_of_toList (address : Int) {before after : List Instruction}
    {instruction : Instruction} (listed : program.code.toList = before ++ instruction :: after)
    (here : address = before.length) : program.fetch? address = some instruction := by
  refine fetch?_eq_some_iff.mpr ⟨before.length, here, ?_⟩
  rw [← Array.getElem?_toList, listed]
  simp

theorem holds_of_code (bounded : pattern.Bounded) {before after : List Instruction} {start : Nat}
    {a b : Int} (listed : program.code.toList = before ++ (pattern.code start ++ after))
    (length : before.length = start) (first : a = start) (last : b = start + pattern.width) :
    program.Holds pattern a b := by
  induction pattern using Pattern.byItems generalizing before after start a b with
  | literal symbol =>
      obtain rfl : b = a + 1 := first ▸ last
      exact .literal (fetch?_of_toList a listed (length ▸ first))
  | wildcard =>
      obtain rfl : b = a + 1 := first ▸ last
      exact .wildcard (fetch?_of_toList a listed (length ▸ first))
  | lineStart =>
      obtain rfl : b = a + 1 := first ▸ last
      exact .lineStart (fetch?_of_toList a listed (length ▸ first))
  | lineEnd =>
      obtain rfl : b = a + 1 := first ▸ last
      exact .lineEnd (fetch?_of_toList a listed (length ▸ first))
  | nil =>
      obtain rfl : b = a := by simpa [Pattern.width, Pattern.widthAll, first] using last
      exact .nil
  | cons item rest ihItem ihRest =>
      obtain ⟨itemBounded, restBounded⟩ := Pattern.Bounded.cons_iff.mp bounded
      rw [Pattern.width_cons] at last
      rw [Pattern.code_cons, List.append_assoc] at listed
      have one := ihItem itemBounded listed length first rfl
      rw [← List.append_assoc] at listed
      exact .cons one (ihRest restBounded listed (by simp [length]) (by simp) (by omega))
  | alternative one other ihOne ihOther =>
      obtain ⟨oneBounded, otherBounded⟩ := Pattern.Bounded.alternative_iff.mp bounded
      simp only [Pattern.code, Pattern.width, List.cons_append, List.append_assoc] at listed last
      have split := fetch?_of_toList a listed (by omega)
      rw [List.append_cons] at listed
      have left := ihOne oneBounded listed (a := a + 1) (by simp [length]) (by omega) rfl
      rw [← List.append_assoc] at listed
      have exit := fetch?_of_toList ((start + 1 : Nat) + one.width) listed
        (by simp; omega)
      rw [List.append_cons] at listed
      have right := ihOther otherBounded listed (a := (start + 1 : Nat) + one.width + 1) (b := b)
        (by simp; omega) (by omega) (by omega)
      refine .alternative ?_ left ?_ right
      · rw [split]
        congr 2 <;> omega
      · rw [exit]
        congr 2
        omega
  | repetition quantifier body ih =>
      obtain ⟨given, bodyBounded⟩ := Pattern.Bounded.repetition_iff.mp bounded
      cases quantifier with
      | unspecified => exact absurd rfl given
      | oneOrMore =>
          simp only [Pattern.code, Pattern.width, List.append_assoc] at listed last
          have once := ih bodyBounded listed length first rfl
          rw [← List.append_assoc] at listed
          have split := fetch?_of_toList (start + body.width) listed (by simp; omega)
          obtain rfl : b = start + body.width + 1 := by omega
          exact .oneOrMore once (first ▸ split)
      | zeroOrMore =>
          simp only [Pattern.code, Pattern.width, List.cons_append, List.append_assoc]
            at listed last
          have split := fetch?_of_toList a listed (by omega)
          rw [List.append_cons] at listed
          have once := ih bodyBounded listed (a := a + 1) (by simp [length]) (by omega) rfl
          rw [← List.append_assoc] at listed
          have back := fetch?_of_toList (start + 1 + body.width) listed (by simp; omega)
          obtain rfl : b = start + 1 + body.width + 1 := by omega
          refine .zeroOrMore ?_ once (first ▸ back)
          rw [split]
          congr 2 <;> omega
      | zeroOrOne =>
          simp only [Pattern.code, Pattern.width, List.cons_append] at listed last
          have split := fetch?_of_toList a listed (by omega)
          rw [List.append_cons] at listed
          have once := ih bodyBounded listed (a := a + 1) (b := b) (by simp [length]) (by omega)
            (by omega)
          refine .zeroOrOne ?_ once
          rw [split]
          congr 2 <;> omega

/-! ## Control in a region -/

/--
The instruction at the address passes control on between `a` and `b` only, and by a jump only
forward or to a split.
-/
def Stays (program : Program) (a b address : Int) : Prop :=
  ∃ instruction, program.fetch? address = some instruction ∧
    (∀ target ∈ instruction.successors address, a ≤ target ∧ target ≤ b) ∧
    ∀ target, instruction = .jump target → address < target ∨
      ∃ one other, program.fetch? target = some (.split one other)

theorem Stays.widen {a b c d address : Int} (stays : program.Stays b c address) (left : a ≤ b)
    (right : c ≤ d) : program.Stays a d address := by
  obtain ⟨instruction, fetched, successors, jumps⟩ := stays
  refine ⟨instruction, fetched, fun target mem => ?_, jumps⟩
  obtain ⟨above, below⟩ := successors target mem
  exact ⟨left.trans above, below.trans right⟩

theorem Stays.of_split {a b c d address : Int}
    (fetched : program.fetch? address = some (.split c d)) (one : a ≤ c ∧ c ≤ b)
    (other : a ≤ d ∧ d ≤ b) : program.Stays a b address :=
  ⟨_, fetched, by simpa [Instruction.successors] using ⟨one, other⟩, by simp⟩

theorem Stays.of_next {a b address : Int} {instruction : Instruction}
    (fetched : program.fetch? address = some instruction)
    (follows : ∀ target ∈ instruction.successors address, target = address + 1)
    (plain : ∀ target, instruction ≠ .jump target) (first : a ≤ address) (last : address < b) :
    program.Stays a b address := by
  refine ⟨instruction, fetched, fun target mem => ?_, fun target same => absurd same (plain target)⟩
  rw [follows target mem]
  exact ⟨by omega, by omega⟩

theorem Stays.of_jump {a b c address : Int} (fetched : program.fetch? address = some (.jump c))
    (inside : a ≤ c ∧ c ≤ b)
    (lands : address < c ∨ ∃ one other, program.fetch? c = some (.split one other)) :
    program.Stays a b address := by
  refine ⟨_, fetched, by simpa [Instruction.successors] using inside, fun target same => ?_⟩
  cases same
  exact lands

namespace Holds

variable {a b : Int}

theorem le (holds : program.Holds pattern a b) : a ≤ b := by
  induction holds with
  | literal | wildcard | lineStart | lineEnd => exact Int.le_add_one (Int.le_refl _)
  | nil => exact Int.le_refl _
  | cons _ _ ihOne ihOthers => exact ihOne.trans ihOthers
  | alternative _ _ _ _ ihOne ihOther => omega
  | oneOrMore _ _ ih => omega
  | zeroOrMore _ _ _ ih => omega
  | zeroOrOne _ _ ih => omega

theorem stays (holds : program.Holds pattern a b) : Between (program.Stays a b) a b := by
  induction holds with
  | literal fetched =>
      exact .single (.of_next fetched (by simp [Instruction.successors]) (by simp) (by omega)
        (by omega))
  | wildcard fetched =>
      exact .single (.of_next fetched (by simp [Instruction.successors]) (by simp) (by omega)
        (by omega))
  | lineStart fetched =>
      exact .single (.of_next fetched (by simp [Instruction.successors]) (by simp) (by omega)
        (by omega))
  | lineEnd fetched =>
      exact .single (.of_next fetched (by simp [Instruction.successors]) (by simp) (by omega)
        (by omega))
  | nil => exact .empty
  | cons one others ihOne ihOthers =>
      exact .append (ihOne.imp fun _ _ _ stays => stays.widen (Int.le_refl _) others.le)
        (ihOthers.imp fun _ _ _ stays => stays.widen one.le (Int.le_refl _))
  | alternative split left exit right ihLeft ihRight =>
      have leftLe := left.le
      have rightLe := right.le
      refine .cons (.of_split split ⟨by omega, by omega⟩ ⟨by omega, by omega⟩) ?_
      refine .append (ihLeft.imp fun _ _ _ stays => stays.widen (by omega) (by omega)) ?_
      refine .cons (.of_jump exit ⟨by omega, by omega⟩ (.inl (by omega))) ?_
      exact ihRight.imp fun _ _ _ stays => stays.widen (by omega) (by omega)
  | oneOrMore once split ih =>
      have le := once.le
      refine .append (ih.imp fun _ _ _ stays => stays.widen (by omega) (by omega)) ?_
      exact .single (.of_split split ⟨by omega, by omega⟩ ⟨by omega, by omega⟩)
  | zeroOrMore split once back ih =>
      have le := once.le
      refine .cons (.of_split split ⟨by omega, by omega⟩ ⟨by omega, by omega⟩) ?_
      refine .append (ih.imp fun _ _ _ stays => stays.widen (by omega) (by omega)) ?_
      exact .single (.of_jump back ⟨by omega, by omega⟩ (.inr ⟨_, _, split⟩))
  | zeroOrOne split once ih =>
      have le := once.le
      refine .cons (.of_split split ⟨by omega, by omega⟩ ⟨by omega, by omega⟩) ?_
      exact ih.imp fun _ _ _ stays => stays.widen (by omega) (by omega)

end Holds

/-! ## Whole programs -/

/-- A program that holds a pattern from its first address and then accepts. -/
structure Carries (program : Program) (pattern : Pattern) (stop : Int) : Prop where
  holds : program.Holds pattern 0 stop
  accepts : program.fetch? stop = some .accept
  size : (program.size : Int) = stop + 1

theorem carries_program (bounded : pattern.Bounded) :
    pattern.program.Carries pattern pattern.width where
  holds := by
    have listed : pattern.program.code.toList =
        [] ++ (pattern.code 0 ++ [Instruction.accept]) := rfl
    exact holds_of_code bounded listed rfl rfl (by simp)
  accepts := by
    have listed : pattern.program.code.toList =
        pattern.code 0 ++ Instruction.accept :: [] := rfl
    exact fetch?_of_toList pattern.width listed (by simp)
  size := by simp [Pattern.program, size]

namespace Carries

variable {stop : Int}

theorem stays (carries : program.Carries pattern stop) {address : Int} (first : 0 ≤ address)
    (last : address ≤ stop) : program.Stays 0 stop address := by
  rcases Int.lt_or_eq_of_le last with inside | rfl
  · exact carries.holds.stays address first inside
  · exact ⟨.accept, carries.accepts, by simp [Instruction.successors], by simp⟩

theorem closed (carries : program.Carries pattern stop) : program.Closed where
  start := by
    obtain ⟨instruction, fetched, -⟩ := carries.stays (Int.le_refl 0) carries.holds.le
    rw [fetched]
    rfl
  flows := by
    rintro a b ⟨instruction, fetched, mem⟩
    obtain ⟨above, below⟩ := bounds_of_fetch? fetched
    have size := carries.size
    obtain ⟨_, same, successors, -⟩ := carries.stays above (by omega)
    obtain rfl := Option.some.inj (fetched.symm.trans same)
    obtain ⟨left, right⟩ := successors b mem
    obtain ⟨next, found, -⟩ := carries.stays left right
    rw [found]
    rfl

theorem noIdleCycle (carries : program.Carries pattern stop) : program.NoIdleCycle := by
  refine .of_jumps fun a b jump => ?_
  obtain ⟨above, below⟩ := bounds_of_fetch? jump
  have size := carries.size
  obtain ⟨_, same, -, jumps⟩ := carries.stays above (by omega)
  exact jumps b (Option.some.inj (same.symm.trans jump))

end Carries

end Program

end PatternMachine

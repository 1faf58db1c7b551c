import PatternMachine.Proofs.Program.Relocation

/-!
# Code at any address

Generation puts the code of a tree behind the instructions of a draft, wherever that ends. The
code at one address is that at any other with its targets moved by the distance, since targets are
addresses of the code itself.
-/

namespace PatternMachine

namespace Pattern

/-- Further on the code of a tree is the same with all its targets moved as far. -/
theorem code_add (start delta : Nat) (pattern : Pattern) :
    pattern.code (start + delta) = (pattern.code start).map (·.relocate (· + delta)) := by
  induction pattern using byItems generalizing start with
  | literal symbol => rfl
  | wildcard => rfl
  | lineStart => rfl
  | lineEnd => rfl
  | nil => rfl
  | cons item rest ihItem ihRest =>
      have behind : start + delta + item.width = start + item.width + delta := by omega
      rw [code_cons, code_cons, List.map_append, ihItem, behind, ihRest]
  | alternative first second ihFirst ihSecond =>
      have inside : start + delta + 1 = start + 1 + delta := by omega
      have other : start + delta + first.width + 2 = start + first.width + 2 + delta := by omega
      have next : ((start + delta : Nat) : Int) + 1 = start + 1 + delta := by omega
      have exit : ((start + first.width + 2 + delta : Nat) : Int) + second.width =
          (start + first.width + 2 : Nat) + second.width + delta := by omega
      rw [code, code, inside, other, ihFirst, ihSecond, next, exit]
      simp only [List.map_cons, List.map_append, Instruction.relocate, Int.natCast_add]
  | repetition quantifier body ih =>
      have inside : start + delta + 1 = start + 1 + delta := by omega
      have next : ((start + delta : Nat) : Int) + 1 = start + 1 + delta := by omega
      cases quantifier with
      | oneOrMore =>
          have stop : ((start + delta : Nat) : Int) + body.width + 1 =
              start + body.width + 1 + delta := by omega
          rw [code, code, ih, stop]
          simp only [List.map_cons, List.map_append, List.map_nil, Instruction.relocate,
            Int.natCast_add]
      | zeroOrMore =>
          have stop : ((start + delta : Nat) : Int) + body.width + 2 =
              start + body.width + 2 + delta := by omega
          rw [code, code, inside, ih, next, stop]
          simp only [List.map_cons, List.map_append, List.map_nil, Instruction.relocate,
            Int.natCast_add]
      | zeroOrOne =>
          have stop : ((start + delta : Nat) : Int) + body.width + 1 =
              start + body.width + 1 + delta := by omega
          rw [code, code, inside, ih, next, stop]
          simp only [List.map_cons, Instruction.relocate]
      | unspecified => rfl

end Pattern

namespace Draft

variable {pattern : Pattern}

theorem eq_of {draft : Draft} (counter : draft.pc = draft.code.size) :
    draft = of draft.code.toList := by
  obtain ⟨pc, code⟩ := draft
  simp only at counter
  simp [of, counter]

/--
Generation puts the code of a bounded tree behind the instructions of a draft with room for it,
and keeps these as they are. The code at an address is that at address zero with all its targets
moved as far.
-/
theorem generate_eq_code (bounded : pattern.Bounded) :
    (∀ (limit : Nat) (draft : Draft), draft.pc = draft.code.size →
      draft.pc + (pattern.code draft.pc).length ≤ limit →
      ∃ behind, generate limit pattern draft = .ok () behind ∧
        behind.code.toList = draft.code.toList ++ pattern.code draft.pc ∧
        behind.pc = behind.code.size) ∧
    ∀ start : Nat, pattern.code start = (pattern.code 0).map (·.relocate (· + start)) := by
  constructor
  · intro limit draft counter room
    have start : draft.code.toList.length = draft.pc := by rw [Array.length_toList, counter]
    rw [Pattern.length_code, ← start] at room
    have generated := generate_of bounded draft.code.toList room
    rw [← eq_of counter, start] at generated
    exact ⟨_, generated, rfl, by simp [of]⟩
  · intro start
    have moved := pattern.code_add 0 start
    rwa [Nat.zero_add] at moved

def nestedLoops : Pattern :=
  .repetition .zeroOrMore
    (.alternative (.repetition .oneOrMore (.literal "b")) (.repetition .zeroOrOne .wildcard))

/-- A split that waits for its second target, and the literal behind it. -/
def waiting : Draft :=
  ⟨2, #[.split 1 0, .literal "a"]⟩

theorem generate_eq_code_nestedLoops :
    nestedLoops.Bounded ∧ waiting.pc = waiting.code.size ∧
      waiting.pc + (nestedLoops.code waiting.pc).length ≤ 10 ∧
      (∃ behind, generate 10 nestedLoops waiting = .ok () behind ∧
        behind.code.toList = [.split 1 0, .literal "a", .split 3 10, .split 4 7, .literal "b",
          .split 4 6, .jump 9, .split 8 9, .any, .jump 2] ∧
        behind.pc = behind.code.size) ∧
      nestedLoops.code 2 = (nestedLoops.code 0).map (·.relocate (· + 2)) := by
  have bounded : nestedLoops.Bounded := by decide
  have room : waiting.pc + (nestedLoops.code waiting.pc).length ≤ 10 := by decide
  obtain ⟨generates, moves⟩ := generate_eq_code bounded
  obtain ⟨behind, generated, appended, counter⟩ := generates 10 waiting rfl room
  exact ⟨bounded, rfl, room, ⟨behind, generated, appended, counter⟩, moves 2⟩

end Draft

end PatternMachine

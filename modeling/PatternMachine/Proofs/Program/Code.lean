import PatternMachine.Program.Build
import PatternMachine.Proofs.Pattern.Shape

/-!
# The code of a pattern

The instructions that a pattern needs, written down at once for every start address. Generation
in one pass with targets filled in later appends just these to the instructions that a draft
already has.
-/

namespace PatternMachine

namespace Pattern

mutual

def width : Pattern → Nat
  | .literal _ | .wildcard | .lineStart | .lineEnd => 1
  | .sequence items => widthAll items
  | .alternative first second => first.width + second.width + 2
  | .repetition .oneOrMore body => body.width + 1
  | .repetition .zeroOrMore body => body.width + 2
  | .repetition .zeroOrOne body => body.width + 1
  | .repetition .unspecified _ => 0

def widthAll : List Pattern → Nat
  | [] => 0
  | item :: rest => item.width + widthAll rest

end

mutual

/-- The code of a tree from an address on. -/
def code (start : Nat) : Pattern → List Instruction
  | .literal symbol => [.literal symbol]
  | .wildcard => [.any]
  | .lineStart => [.head]
  | .lineEnd => [.matchEnd]
  | .sequence items => codeAll start items
  | .alternative first second =>
      let other := start + first.width + 2
      .split (start + 1) other ::
        (first.code (start + 1) ++ .jump (other + second.width) :: second.code other)
  | .repetition .oneOrMore body =>
      body.code start ++ [.split start (start + body.width + 1)]
  | .repetition .zeroOrMore body =>
      .split (start + 1) (start + body.width + 2) :: (body.code (start + 1) ++ [.jump start])
  | .repetition .zeroOrOne body =>
      .split (start + 1) (start + body.width + 1) :: body.code (start + 1)
  | .repetition .unspecified _ => []

def codeAll (start : Nat) : List Pattern → List Instruction
  | [] => []
  | item :: rest => item.code start ++ codeAll (start + item.width) rest

end

theorem width_cons (item : Pattern) (rest : List Pattern) :
    (sequence (item :: rest)).width = item.width + (sequence rest).width :=
  rfl

theorem code_cons (start : Nat) (item : Pattern) (rest : List Pattern) :
    (sequence (item :: rest)).code start =
      item.code start ++ (sequence rest).code (start + item.width) :=
  rfl

@[simp]
theorem length_code (start : Nat) (pattern : Pattern) :
    (pattern.code start).length = pattern.width := by
  induction pattern using byItems generalizing start with
  | literal symbol => rfl
  | wildcard => rfl
  | lineStart => rfl
  | lineEnd => rfl
  | nil => rfl
  | cons item rest ihItem ihRest =>
      rw [code_cons, width_cons, List.length_append, ihItem, ihRest]
  | alternative first second ihFirst ihSecond =>
      simp only [code, width, List.length_cons, List.length_append, ihFirst, ihSecond]
      omega
  | repetition quantifier body ih =>
      cases quantifier <;> simp [code, width, ih]

/-- The code of the tree from address zero on, and the instruction that accepts. -/
def program (pattern : Pattern) : Program :=
  ⟨(pattern.code 0 ++ [Instruction.accept]).toArray⟩

theorem size_program (pattern : Pattern) : pattern.program.size = pattern.width + 1 := by
  simp [program, Program.size]

end Pattern

namespace Draft

/-- The draft of some instructions, whose counter stands behind the last of them. -/
def of (instructions : List Instruction) : Draft :=
  ⟨instructions.length, instructions.toArray⟩

/-! ## Operations -/

theorem bind_of {α β : Type} {first : Build α} {next : α → Build β} {draft draft' : Draft}
    {value : α} (ran : first draft = .ok value draft') :
    (first >>= next) draft = next value draft' := by
  simp only [bind, EStateM.bind, ran]

theorem emit_of (limit : Nat) (instruction : Instruction) (before : List Instruction)
    (room : before.length < limit) :
    emit limit instruction (of before) = .ok before.length (of (before ++ [instruction])) := by
  have moved : checkedAdd before.length 1 limit BuildError.addressOverflow =
      .ok (before.length + 1) := checkedAdd_eq_ok_iff.mpr ⟨room, rfl⟩
  have skipped : skip limit (of before) =
      .ok () ⟨before.length + 1, before.toArray⟩ := by
    simp only [skip, of, moved]
  have pushed : of (before ++ [instruction]) =
      ⟨before.length + 1, before.toArray.push instruction⟩ := by
    simp [of]
  rw [pushed]
  exact bind_of skipped

theorem openSplit_of (limit : Nat) (before : List Instruction) (room : before.length < limit) :
    openSplit limit (of before) = .ok before.length
      (of (before ++ [.split (before.length + 1) 0])) :=
  emit_of limit (.split (before.length + 1) 0) before room

theorem patch_of {opening : Opening} {first second : Option Int} {old filled : Instruction}
    (fill : opening.fill? first second old = some filled) (failure : BuildError)
    (before after : List Instruction) :
    patch before.length opening failure first second (of (before ++ old :: after)) =
      .ok () (of (before ++ filled :: after)) := by
  have found : (of (before ++ old :: after)).instruction? before.length = some old := by
    simp [instruction?, of]
  simp only [patch, found, fill]
  simp [of]

theorem landJump_of (block : Block) (before after : List Instruction) (old target : Int)
    (here : target = before.length + after.length + 1) :
    landJump before.length block (of (before ++ .jump old :: after)) =
      .ok () (of (before ++ .jump target :: after)) := by
  have counter : ((of (before ++ .jump old :: after)).pc : Int) = target := by
    simp [of]
    omega
  rw [← counter]
  exact patch_of rfl (.unpatched block) before after

theorem landSplit_of (block : Block) (before after : List Instruction) (first old target : Int)
    (here : target = before.length + after.length + 1) :
    landSplit before.length block (of (before ++ .split first old :: after)) =
      .ok () (of (before ++ .split first target :: after)) := by
  have counter : ((of (before ++ .split first old :: after)).pc : Int) = target := by
    simp [of]
    omega
  rw [← counter]
  exact patch_of rfl (.unpatched block) before after

/-! ## Generation -/

/-- Generation appends the code of the tree to a draft with room for it. -/
theorem generate_of {limit : Nat} {pattern : Pattern} (bounded : pattern.Bounded)
    (before : List Instruction) (room : before.length + pattern.width ≤ limit) :
    generate limit pattern (of before) = .ok () (of (before ++ pattern.code before.length)) := by
  induction pattern using Pattern.byItems generalizing before with
  | literal symbol => exact bind_of (emit_of limit _ before room)
  | wildcard => exact bind_of (emit_of limit _ before room)
  | lineStart => exact bind_of (emit_of limit _ before room)
  | lineEnd => exact bind_of (emit_of limit _ before room)
  | nil => simp [generate, generateAll, Pattern.code, Pattern.codeAll, pure, EStateM.pure]
  | cons item rest ihItem ihRest =>
      obtain ⟨itemBounded, restBounded⟩ := Pattern.Bounded.cons_iff.mp bounded
      rw [Pattern.width_cons] at room
      have one := ihItem itemBounded before (by omega)
      have others := ihRest restBounded (before ++ item.code before.length)
        (by simp; omega)
      rw [List.length_append, Pattern.length_code, List.append_assoc] at others
      rw [Pattern.code_cons, ← others]
      exact bind_of one
  | alternative first second ihFirst ihSecond =>
      obtain ⟨firstBounded, secondBounded⟩ := Pattern.Bounded.alternative_iff.mp bounded
      rw [Pattern.width] at room
      have opened := openSplit_of limit before (by omega)
      have one := ihFirst firstBounded (before ++ [.split (before.length + 1) 0])
        (by simp; omega)
      have exit := emit_of limit (.jump 0)
        (before ++ .split (before.length + 1) 0 :: first.code (before.length + 1))
        (by simp; omega)
      have forked := landSplit_of .alternative before
        (first.code (before.length + 1) ++ [.jump 0]) (before.length + 1) 0
        (before.length + first.width + 2) (by simp; omega)
      have other := ihSecond secondBounded
        (before ++ .split (before.length + 1) (before.length + first.width + 2) ::
          (first.code (before.length + 1) ++ [.jump 0])) (by simp; omega)
      have landed := landJump_of .alternative
        (before ++ .split (before.length + 1) (before.length + first.width + 2) ::
          first.code (before.length + 1))
        (second.code (before.length + first.width + 2)) 0
        (before.length + first.width + 2 + second.width) (by simp; omega)
      simp only [List.length_append, List.length_cons, List.length_nil, Pattern.length_code,
        List.append_assoc, List.cons_append, List.nil_append] at one exit other landed
      exact (bind_of opened).trans ((bind_of one).trans ((bind_of exit).trans
        ((bind_of forked).trans ((bind_of other).trans landed))))
  | repetition quantifier body ih =>
      obtain ⟨given, bodyBounded⟩ := Pattern.Bounded.repetition_iff.mp bounded
      cases quantifier with
      | unspecified => exact absurd rfl given
      | oneOrMore =>
          rw [Pattern.width] at room
          have looped := ih bodyBounded before (by omega)
          have closed := emit_of limit (.split before.length (before.length + body.width + 1))
            (before ++ body.code before.length) (by simp; omega)
          have counter : ((of (before ++ body.code before.length)).pc : Int) =
              before.length + body.width := by simp [of]
          rw [← counter, List.append_assoc] at closed
          rw [Pattern.code, ← counter]
          exact (bind_of looped).trans (bind_of closed)
      | zeroOrMore =>
          rw [Pattern.width] at room
          have opened := openSplit_of limit before (by omega)
          have looped := ih bodyBounded (before ++ [.split (before.length + 1) 0])
            (by simp; omega)
          have closed := emit_of limit (.jump before.length)
            (before ++ .split (before.length + 1) 0 :: body.code (before.length + 1))
            (by simp; omega)
          have landed := landSplit_of .star before
            (body.code (before.length + 1) ++ [.jump before.length]) (before.length + 1) 0
            (before.length + body.width + 2)
            (by simp; omega)
          simp only [List.length_append, List.length_cons, List.length_nil, Pattern.length_code,
            List.append_assoc, List.cons_append, List.nil_append] at looped closed
          exact (bind_of opened).trans ((bind_of looped).trans ((bind_of closed).trans landed))
      | zeroOrOne =>
          rw [Pattern.width] at room
          have opened := openSplit_of limit before (by omega)
          have looped := ih bodyBounded (before ++ [.split (before.length + 1) 0])
            (by simp; omega)
          have landed := landSplit_of .optional before (body.code (before.length + 1))
            (before.length + 1) 0 (before.length + body.width + 1) (by simp)
          simp only [List.length_append, List.length_cons, List.length_nil, List.append_assoc,
            List.cons_append, List.nil_append] at looped
          exact (bind_of opened).trans ((bind_of looped).trans landed)

theorem complete_of {limit : Nat} {pattern : Pattern} (bounded : pattern.Bounded)
    (fits : pattern.program.size ≤ limit) :
    ∃ draft, complete limit pattern {} = .ok pattern.program draft := by
  have room : pattern.width < limit := by rwa [pattern.size_program] at fits
  have generated := generate_of bounded [] (by simpa using Nat.le_of_lt room)
  have closed := emit_of limit .accept (pattern.code 0) (by simpa using room)
  exact ⟨_, (bind_of generated).trans ((bind_of closed).trans rfl)⟩

end Draft

/-! ## Building -/

namespace Pattern

variable {config : Config} {pattern : Pattern} {program : Program}

theorem value_build_eq (config : Config) (pattern : Pattern) :
    (pattern.build config).value =
      match Draft.complete config.maxAddress pattern.normal {} with
      | .ok program _ => .ok program
      | .error error _ => .error error := by
  unfold build Draft.build
  simp only [EStateM.run]
  cases Draft.complete config.maxAddress pattern.normal {} <;> rfl

theorem build_of_fits (bounded : pattern.Bounded)
    (fits : pattern.normal.program.size ≤ config.maxAddress) :
    (pattern.build config).value = .ok pattern.normal.program := by
  obtain ⟨draft, completed⟩ := Draft.complete_of bounded.normal fits
  rw [value_build_eq, completed]

theorem build_eq_ok (bounded : pattern.Bounded)
    (fits : pattern.normal.program.size ≤ config.maxAddress)
    (built : (pattern.build config).value = .ok program) : program = pattern.normal.program :=
  Except.ok.inj (built.symm.trans (build_of_fits bounded fits))

end Pattern

end PatternMachine

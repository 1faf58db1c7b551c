import PatternMachine.Proofs.Program.Code

/-!
# Built programs fit

An operation of construction moves the address counter on by a number that does not depend on the
draft, and it fails rather than let the counter pass the limit. So a program that was built fits
the limit under which it was built, up to the address behind its last instruction.
-/

namespace PatternMachine

namespace Draft

variable {α β : Type} {limit : Nat}

/-! ## Operations -/

/-- Where the operation succeeds, it moves the counter on by the number and not past the limit. -/
def Counts (limit count : Nat) (operation : Build α) : Prop :=
  ∀ ⦃draft : Draft⦄ ⦃value : α⦄ ⦃draft' : Draft⦄, operation draft = .ok value draft' →
    draft'.pc = draft.pc + count ∧ (draft.pc ≤ limit → draft'.pc ≤ limit)

theorem bind_eq_ok {first : Build α} {next : α → Build β} {draft draft' : Draft} {value : β}
    (ran : (first >>= next) draft = .ok value draft') :
    ∃ between found, first draft = .ok found between ∧ next found between = .ok value draft' := by
  simp only [bind, EStateM.bind] at ran
  split at ran
  · rename_i found between one
    exact ⟨between, found, one, ran⟩
  · cases ran

namespace Counts

theorem pure (value : α) : Counts limit 0 (Pure.pure value : Build α) := by
  rintro draft _ _ ⟨⟩
  exact ⟨rfl, id⟩

theorem get : Counts limit 0 (MonadState.get : Build Draft) := by
  rintro draft _ _ ⟨⟩
  exact ⟨rfl, id⟩

theorem bind {one other : Nat} {first : Build α} {next : α → Build β}
    (counts : Counts limit one first) (rest : ∀ found, Counts limit other (next found)) :
    Counts limit (one + other) (first >>= next) := by
  intro draft value draft' ran
  obtain ⟨between, found, here, there⟩ := bind_eq_ok ran
  obtain ⟨moved, below⟩ := counts here
  obtain ⟨moved', below'⟩ := rest found there
  exact ⟨by omega, below' ∘ below⟩

theorem skip (limit : Nat) : Counts limit 1 (Draft.skip limit) := by
  intro draft value draft' ran
  unfold Draft.skip at ran
  split at ran
  · rename_i pc moved
    cases ran
    obtain ⟨room, rfl⟩ := checkedAdd_eq_ok_iff.mp moved
    exact ⟨rfl, fun _ => room⟩
  · cases ran

theorem emit (limit : Nat) (instruction : Instruction) :
    Counts limit 1 (Draft.emit limit instruction) := by
  have push (address : Nat) : Counts limit 0 (do
      modify fun draft : Draft => { draft with code := draft.code.push instruction }
      return address : Build Nat) := by
    rintro draft _ _ ⟨⟩
    exact ⟨rfl, id⟩
  exact get.bind fun draft => (skip limit).bind fun _ => push draft.pc

theorem openSplit (limit : Nat) : Counts limit 1 (Draft.openSplit limit) :=
  get.bind fun _ => emit limit _

theorem patch (address : Int) (opening : Opening) (failure : BuildError)
    (first second : Option Int) :
    Counts limit 0 (Draft.patch address opening failure first second) := by
  intro draft value draft' ran
  unfold Draft.patch at ran
  split at ran
  · cases ran
  · split at ran
    · cases ran
    · cases ran
      exact ⟨rfl, id⟩

theorem landJump (address : Nat) (block : Block) :
    Counts limit 0 (Draft.landJump address block) :=
  get.bind fun _ => patch _ _ _ _ _

theorem landSplit (address : Nat) (block : Block) :
    Counts limit 0 (Draft.landSplit address block) :=
  get.bind fun _ => patch _ _ _ _ _

theorem cast {count count' : Nat} {operation : Build α} (counts : Counts limit count operation)
    (same : count = count') : Counts limit count' operation :=
  same ▸ counts

end Counts

/-! ## Generation -/

/-- Generation counts the instructions of the tree, whether the tree is bounded or not. -/
theorem counts_generate (limit : Nat) (pattern : Pattern) :
    Counts limit pattern.width (generate limit pattern) := by
  induction pattern using Pattern.byItems with
  | literal symbol => exact (Counts.emit limit _).bind fun _ => .pure ()
  | wildcard => exact (Counts.emit limit _).bind fun _ => .pure ()
  | lineStart => exact (Counts.emit limit _).bind fun _ => .pure ()
  | lineEnd => exact (Counts.emit limit _).bind fun _ => .pure ()
  | nil => exact Counts.pure ()
  | cons item rest ihItem ihRest => exact ihItem.bind fun _ => ihRest
  | alternative first second ihFirst ihSecond =>
      have parts : Counts limit (1 + (first.width + (1 + (0 + (second.width + 0)))))
          (generate limit (.alternative first second)) :=
        (Counts.openSplit limit).bind fun fork => ihFirst.bind fun _ =>
          (Counts.emit limit _).bind fun exit => (Counts.landSplit fork _).bind fun _ =>
            ihSecond.bind fun _ => Counts.landJump exit _
      exact parts.cast (by rw [Pattern.width]; omega)
  | repetition quantifier body ih =>
      cases quantifier with
      | unspecified =>
          intro draft value draft' ran
          cases ran
      | oneOrMore =>
          have parts : Counts limit (0 + (body.width + (0 + (1 + 0))))
              (generate limit (.repetition .oneOrMore body)) :=
            Counts.get.bind fun _ => ih.bind fun _ => Counts.get.bind fun _ =>
              (Counts.emit limit _).bind fun _ => .pure ()
          exact parts.cast (by rw [Pattern.width]; omega)
      | zeroOrMore =>
          have parts : Counts limit (1 + (body.width + (1 + 0)))
              (generate limit (.repetition .zeroOrMore body)) :=
            (Counts.openSplit limit).bind fun start => ih.bind fun _ =>
              (Counts.emit limit _).bind fun _ => Counts.landSplit start _
          exact parts.cast (by rw [Pattern.width]; omega)
      | zeroOrOne =>
          have parts : Counts limit (1 + (body.width + 0))
              (generate limit (.repetition .zeroOrOne body)) :=
            (Counts.openSplit limit).bind fun fork => ih.bind fun _ => Counts.landSplit fork _
          exact parts.cast (by rw [Pattern.width]; omega)

theorem size_program_le_of_complete {pattern : Pattern} {program : Program} {draft : Draft}
    (completed : complete limit pattern {} = .ok program draft) :
    pattern.program.size ≤ limit := by
  have counts : Counts limit (pattern.width + (1 + (0 + 0))) (complete limit pattern) :=
    (counts_generate limit pattern).bind fun _ => (Counts.emit limit _).bind fun _ =>
      Counts.get.bind fun _ => Counts.pure _
  obtain ⟨counted, below⟩ := counts completed
  have last := below (Nat.zero_le limit)
  rw [pattern.size_program]
  rw [counted] at last
  simpa using last

end Draft

/-! ## Building -/

namespace Pattern

variable {config : Config} {pattern : Pattern} {program : Program}

theorem size_program_le_of_build (built : (pattern.build config).value = .ok program) :
    pattern.normal.program.size ≤ config.maxAddress := by
  rw [value_build_eq] at built
  split at built
  · rename_i completed
    exact Draft.size_program_le_of_complete completed
  · cases built

end Pattern

end PatternMachine

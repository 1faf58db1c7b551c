import PatternMachine.Proofs.Program.Fits

/-!
# Building under a limit

A lower limit on addresses makes construction stop earlier and changes nothing else. With a limit
that is high enough a bounded tree is completed, so that under any limit it is completed or the
address counter overflows. No target is ever missing when it is to be filled in, and no part of
the tree is without code.
-/

namespace PatternMachine

namespace Draft

variable {α β : Type} {limit limit' : Nat} {pattern : Pattern}

/-- The operation does what the other one does, or it stops at the limit on addresses. -/
def Restricts (operation other : Build α) : Prop :=
  ∀ draft, operation draft = other draft ∨
    ∃ draft', operation draft = .error .addressOverflow draft'

namespace Restricts

theorem refl (operation : Build α) : Restricts operation operation :=
  fun _ => .inl rfl

theorem bind {first first' : Build α} {next next' : α → Build β} (one : Restricts first first')
    (rest : ∀ found, Restricts (next found) (next' found)) :
    Restricts (first >>= next) (first' >>= next') := by
  intro draft
  simp only [Bind.bind, EStateM.bind]
  rcases one draft with same | ⟨draft', full⟩
  · rw [same]
    cases first' draft with
    | ok found between => exact rest found between
    | error error between => exact .inl rfl
  · rw [full]
    exact .inr ⟨draft', rfl⟩

theorem skip (le : limit ≤ limit') : Restricts (Draft.skip limit) (Draft.skip limit') := by
  intro draft
  unfold Draft.skip checkedAdd
  by_cases full : limit < draft.pc + 1
  · exact .inr ⟨draft, by rw [if_pos full]⟩
  · left
    rw [if_neg full, if_neg (by omega)]

theorem emit (le : limit ≤ limit') (instruction : Instruction) :
    Restricts (Draft.emit limit instruction) (Draft.emit limit' instruction) :=
  (refl _).bind fun _ => (skip le).bind fun _ => refl _

theorem openSplit (le : limit ≤ limit') :
    Restricts (Draft.openSplit limit) (Draft.openSplit limit') :=
  (refl _).bind fun _ => emit le _

end Restricts

theorem restricts_generate (le : limit ≤ limit') (pattern : Pattern) :
    Restricts (generate limit pattern) (generate limit' pattern) := by
  induction pattern using Pattern.byItems with
  | literal symbol => exact (Restricts.emit le _).bind fun _ => .refl _
  | wildcard => exact (Restricts.emit le _).bind fun _ => .refl _
  | lineStart => exact (Restricts.emit le _).bind fun _ => .refl _
  | lineEnd => exact (Restricts.emit le _).bind fun _ => .refl _
  | nil => exact .refl _
  | cons item rest ihItem ihRest => exact ihItem.bind fun _ => ihRest
  | alternative first second ihFirst ihSecond =>
      exact (Restricts.openSplit le).bind fun _ => ihFirst.bind fun _ =>
        (Restricts.emit le _).bind fun _ => (Restricts.refl _).bind fun _ =>
          ihSecond.bind fun _ => .refl _
  | repetition quantifier body ih =>
      cases quantifier with
      | unspecified => exact .refl _
      | oneOrMore =>
          exact (Restricts.refl _).bind fun _ => ih.bind fun _ => (Restricts.refl _).bind fun _ =>
            (Restricts.emit le _).bind fun _ => .refl _
      | zeroOrMore =>
          exact (Restricts.openSplit le).bind fun _ => ih.bind fun _ =>
            (Restricts.emit le _).bind fun _ => .refl _
      | zeroOrOne =>
          exact (Restricts.openSplit le).bind fun _ => ih.bind fun _ => .refl _

theorem restricts_complete (le : limit ≤ limit') (pattern : Pattern) :
    Restricts (complete limit pattern) (complete limit' pattern) :=
  (restricts_generate le pattern).bind fun _ => (Restricts.emit le _).bind fun _ => .refl _

/-- A bounded tree is completed if its program fits, and otherwise the address counter overflows. -/
theorem complete_cases (bounded : pattern.Bounded) (limit : Nat) :
    (pattern.program.size ≤ limit ∧
        ∃ draft, complete limit pattern {} = .ok pattern.program draft) ∨
      (limit < pattern.program.size ∧
        ∃ draft, complete limit pattern {} = .error .addressOverflow draft) := by
  rcases Nat.lt_or_ge limit pattern.program.size with small | fits
  · obtain ⟨draft, completed⟩ := complete_of bounded (Nat.le_refl pattern.program.size)
    rcases restricts_complete (Nat.le_of_lt small) pattern {} with same | full
    · have within := size_program_le_of_complete (same.trans completed)
      exact absurd small (Nat.not_lt_of_le within)
    · exact .inr ⟨small, full⟩
  · exact .inl ⟨fits, complete_of bounded fits⟩

end Draft

/-! ## Building -/

namespace Pattern

variable {config : Config} {pattern : Pattern} {program : Program}

theorem value_build (bounded : pattern.Bounded) (config : Config) :
    (pattern.build config).value =
      if pattern.normal.program.size ≤ config.maxAddress then .ok pattern.normal.program
      else .error .addressOverflow := by
  rw [value_build_eq]
  rcases Draft.complete_cases bounded.normal config.maxAddress with
    ⟨fits, draft, completed⟩ | ⟨small, draft, full⟩
  · rw [completed, if_pos fits]
  · rw [full, if_neg (Nat.not_le_of_lt small)]

theorem build_eq_ok_iff (bounded : pattern.Bounded) :
    (pattern.build config).value = .ok program ↔
      pattern.normal.program.size ≤ config.maxAddress ∧ program = pattern.normal.program := by
  rw [value_build bounded]
  split
  · rename_i fits
    rw [Except.ok.injEq, eq_comm, and_iff_right fits]
  · rename_i small
    exact iff_of_false (by simp) fun ⟨fits, _⟩ => small fits

end Pattern

end PatternMachine

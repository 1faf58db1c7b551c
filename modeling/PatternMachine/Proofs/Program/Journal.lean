import PatternMachine.Proofs.Program.Overflow
import PatternMachine.Proofs.Program.Placement

/-!
# The journal of a construction

Generation only emits instructions and fills in targets. Its journal lists these operations with
their addresses, which follow from the tree alone, so that generation is its journal performed
from first to last. What each operation keeps therefore holds of every draft on the way: the
counter stands behind the last instruction and within the limit, and but for targets the
instructions are the first ones that the journal emits.
-/

namespace PatternMachine

namespace Instruction

/-- The instruction without its targets: its kind and the symbol of a literal. -/
def shape (instruction : Instruction) : Instruction :=
  instruction.relocate fun _ => 0

end Instruction

namespace Draft

inductive Operation where
  | emit (instruction : Instruction)
  | landJump (address : Nat) (block : Block)
  | landSplit (address : Nat) (block : Block)
  deriving DecidableEq

namespace Operation

def perform (limit : Nat) : Operation → Build Unit
  | .emit instruction => do
      let _ ← Draft.emit limit instruction
  | .landJump address block => Draft.landJump address block
  | .landSplit address block => Draft.landSplit address block

def emitted : Operation → List Instruction
  | .emit instruction => [instruction]
  | .landJump _ _ | .landSplit _ _ => []

end Operation

def performAll (limit : Nat) (operations : List Operation) : Build Unit :=
  forM operations (Operation.perform limit)

/-- The drafts that operations pass through from a draft, up to and with the one of an error. -/
inductive Passes (limit : Nat) : List Operation → Draft → Draft → Prop where
  | here {operations : List Operation} {draft : Draft} : Passes limit operations draft draft
  | later {operation : Operation} {rest : List Operation} {draft next last : Draft}
      (done : operation.perform limit draft = .ok () next) (others : Passes limit rest next last) :
      Passes limit (operation :: rest) draft last
  | failed {operation : Operation} {rest : List Operation} {draft last : Draft}
      {error : BuildError} (stopped : operation.perform limit draft = .error error last) :
      Passes limit (operation :: rest) draft last

end Draft

namespace Pattern

open Draft (Operation)

mutual

/-- The operations that generate the code of a tree from an address on. -/
def operations (start : Nat) : Pattern → List Operation
  | .literal symbol => [.emit (.literal symbol)]
  | .wildcard => [.emit .any]
  | .lineStart => [.emit .head]
  | .lineEnd => [.emit .matchEnd]
  | .sequence items => operationsAll start items
  | .alternative first second =>
      let exit := start + 1 + first.width
      .emit (.split (start + 1) 0) :: (first.operations (start + 1) ++
        .emit (.jump 0) :: .landSplit start .alternative :: (second.operations (exit + 1) ++
          [.landJump exit .alternative]))
  | .repetition .oneOrMore body =>
      body.operations start ++ [.emit (.split start ((start + body.width : Nat) + 1))]
  | .repetition .zeroOrMore body =>
      .emit (.split (start + 1) 0) :: (body.operations (start + 1) ++
        [.emit (.jump start), .landSplit start .star])
  | .repetition .zeroOrOne body =>
      .emit (.split (start + 1) 0) :: (body.operations (start + 1) ++
        [.landSplit start .optional])
  | .repetition .unspecified _ => []

def operationsAll (start : Nat) : List Pattern → List Operation
  | [] => []
  | item :: rest => item.operations start ++ operationsAll (start + item.width) rest

end

/-- The operations that build the program of a tree in an empty draft. -/
def journal (pattern : Pattern) : List Operation :=
  pattern.operations 0 ++ [.emit .accept]

end Pattern

namespace Draft

variable {α β : Type} {limit start stop : Nat} {draft last : Draft}
  {operation : Operation} {operations others : List Operation} {pattern : Pattern}

theorem performAll_append (limit : Nat) (operations others : List Operation) :
    performAll limit (operations ++ others) =
      (do performAll limit operations; performAll limit others) :=
  List.forM_append

theorem emit_eq (limit : Nat) (instruction : Instruction) (draft : Draft) :
    emit limit instruction draft =
      match skip limit draft with
      | .ok _ next => .ok draft.pc { next with code := next.code.push instruction }
      | .error error next => .error error next := by
  have skipped : emit limit instruction draft =
      (skip limit >>= fun _ => do
        modify fun next => { next with code := next.code.push instruction }
        return draft.pc) draft := rfl
  rw [skipped]
  simp only [Bind.bind, EStateM.bind]
  cases skip limit draft <;> rfl

/-! ## Generation performs its journal -/

/--
With the counter at `start` the construction performs the operations from first to last, gives the
value and leaves the counter at `stop`.
-/
structure Performs (limit start stop : Nat) (operations : List Operation) (value : α)
    (construction : Build α) : Prop where
  same {draft : Draft} (counter : draft.pc = start) :
    construction draft = (do performAll limit operations; return value) draft
  moved {draft draft' : Draft} {found : α} (counter : draft.pc = start)
    (ran : construction draft = .ok found draft') : draft'.pc = stop

namespace Performs

theorem pure (value : α) : Performs limit start start [] value (Pure.pure value : Build α) where
  same _ := rfl
  moved := by
    intro draft draft' found counter ran
    cases ran
    exact counter

/-- What looks at the counter alone does as if it knew where that stands. -/
theorem get {value : α} {next : Draft → Build α}
    (rest : ∀ draft : Draft, draft.pc = start →
      Performs limit start stop operations value (next draft)) :
    Performs limit start stop operations value (MonadState.get >>= next) where
  same counter := (rest _ counter).same counter
  moved counter ran := (rest _ counter).moved counter ran

theorem value_eq {value found : α} {construction : Build α} {draft' : Draft}
    (performs : Performs limit start stop operations value construction)
    (counter : draft.pc = start) (ran : construction draft = .ok found draft') :
    found = value := by
  rw [performs.same counter] at ran
  obtain ⟨between, _, -, last⟩ := bind_eq_ok ran
  cases last
  rfl

theorem bind {middle : Nat} {value : α} {value' : β} {first : Build α} {next : α → Build β}
    (one : Performs limit start middle operations value first)
    (rest : Performs limit middle stop others value' (next value)) :
    Performs limit start stop (operations ++ others) value' (first >>= next) where
  same := by
    intro draft counter
    have front := one.same counter
    rw [performAll_append, bind_assoc]
    simp only [Bind.bind, EStateM.bind] at front ⊢
    cases ran : performAll limit operations draft with
    | ok _ between =>
        rw [ran] at front
        rw [front]
        exact rest.same (one.moved counter front)
    | error error between =>
        rw [ran] at front
        rw [front]
  moved := by
    intro draft draft' found counter ran
    obtain ⟨between, given, here, there⟩ := bind_eq_ok ran
    obtain rfl := one.value_eq counter here
    exact rest.moved (one.moved counter here) there

theorem emit (limit start : Nat) (instruction : Instruction) :
    Performs limit start (start + 1) [.emit instruction] start (Draft.emit limit instruction) where
  same := by
    intro draft counter
    subst counter
    have gives : Draft.emit limit instruction draft =
        (do let _ ← Draft.emit limit instruction; return draft.pc) draft := by
      simp only [Bind.bind, EStateM.bind, emit_eq]
      cases skip limit draft <;> rfl
    rw [gives]
    simp [performAll, Operation.perform]
  moved := by
    intro draft draft' found counter ran
    rw [(Counts.emit limit instruction ran).1, counter]

theorem land {operation : Operation} {construction : Build Unit}
    (same : operation.perform limit = construction) (counts : Counts limit 0 construction) :
    Performs limit start start [operation] () construction where
  same := by
    intro draft counter
    rw [← same]
    simp [performAll]
  moved := by
    intro draft draft' found counter ran
    rw [(counts ran).1, counter, Nat.add_zero]

theorem openSplit (limit start : Nat) :
    Performs limit start (start + 1) [.emit (.split (start + 1) 0)] start
      (Draft.openSplit limit) := by
  refine get fun draft counter => ?_
  rw [counter]
  exact emit limit start _

theorem landSplit (limit start address : Nat) (block : Block) :
    Performs limit start start [.landSplit address block] () (Draft.landSplit address block) :=
  land rfl (Counts.landSplit address block)

theorem landJump (limit start address : Nat) (block : Block) :
    Performs limit start start [.landJump address block] () (Draft.landJump address block) :=
  land rfl (Counts.landJump address block)

theorem cast {stop' : Nat} {value : α} {construction : Build α}
    (performs : Performs limit start stop operations value construction) (same : stop = stop') :
    Performs limit start stop' operations value construction :=
  same ▸ performs

end Performs

/-- Generation performs the operations of the tree, which begin where the counter stands. -/
theorem performs_generate (bounded : pattern.Bounded) (limit start : Nat) :
    Performs limit start (start + pattern.width) (pattern.operations start) ()
      (generate limit pattern) := by
  induction pattern using Pattern.byItems generalizing start with
  | literal symbol => exact (Performs.emit limit start _).bind (.pure ())
  | wildcard => exact (Performs.emit limit start _).bind (.pure ())
  | lineStart => exact (Performs.emit limit start _).bind (.pure ())
  | lineEnd => exact (Performs.emit limit start _).bind (.pure ())
  | nil => exact .pure ()
  | cons item rest ihItem ihRest =>
      obtain ⟨itemBounded, restBounded⟩ := Pattern.Bounded.cons_iff.mp bounded
      have one := ihItem itemBounded start
      have others := ihRest restBounded (start + item.width)
      exact (one.bind others).cast (by rw [Pattern.width_cons]; omega)
  | alternative first second ihFirst ihSecond =>
      obtain ⟨firstBounded, secondBounded⟩ := Pattern.Bounded.alternative_iff.mp bounded
      have fork := Performs.openSplit limit start
      have one := ihFirst firstBounded (start + 1)
      have exit := Performs.emit limit (start + 1 + first.width) (.jump 0)
      have forked := Performs.landSplit limit (start + 1 + first.width + 1) start .alternative
      have other := ihSecond secondBounded (start + 1 + first.width + 1)
      have landed := Performs.landJump limit (start + 1 + first.width + 1 + second.width)
        (start + 1 + first.width) .alternative
      have parts : Performs limit start _ ([_] ++ (_ ++ ([_] ++ ([_] ++ (_ ++ [_]))))) ()
          (generate limit (.alternative first second)) :=
        fork.bind (one.bind (exit.bind (forked.bind (other.bind landed))))
      exact parts.cast (by rw [Pattern.width]; omega)
  | repetition quantifier body ih =>
      obtain ⟨given, bodyBounded⟩ := Pattern.Bounded.repetition_iff.mp bounded
      cases quantifier with
      | unspecified => exact absurd rfl given
      | oneOrMore =>
          have once := ih bodyBounded start
          have closed : Performs limit (start + body.width) _ _ () (do
              let _ ← emit limit (.split start ((← MonadState.get).pc + 1))) :=
            .get fun draft counter => by
              rw [counter]
              exact (Performs.emit limit (start + body.width) _).bind (.pure ())
          have parts : Performs limit start _ _ () (generate limit (.repetition .oneOrMore body)) :=
            .get fun draft counter => by
              rw [counter]
              exact once.bind closed
          exact parts.cast (by rw [Pattern.width]; omega)
      | zeroOrMore =>
          have opened := Performs.openSplit limit start
          have once := ih bodyBounded (start + 1)
          have back := Performs.emit limit (start + 1 + body.width) (.jump start)
          have landed := Performs.landSplit limit (start + 1 + body.width + 1) start .star
          have parts : Performs limit start _ ([_] ++ (_ ++ ([_] ++ [_]))) ()
              (generate limit (.repetition .zeroOrMore body)) :=
            opened.bind (once.bind (back.bind landed))
          exact parts.cast (by rw [Pattern.width]; omega)
      | zeroOrOne =>
          have fork := Performs.openSplit limit start
          have once := ih bodyBounded (start + 1)
          have landed := Performs.landSplit limit (start + 1 + body.width) start .optional
          have parts : Performs limit start _ ([_] ++ (_ ++ [_])) ()
              (generate limit (.repetition .zeroOrOne body)) :=
            fork.bind (once.bind landed)
          exact parts.cast (by rw [Pattern.width]; omega)

theorem complete_eq (bounded : pattern.Bounded) (limit : Nat) :
    complete limit pattern {} =
      (do performAll limit pattern.journal; return Program.mk (← MonadState.get).code) {} := by
  have closed : Performs limit 0 _ pattern.journal _
      (generate limit pattern >>= fun _ => emit limit .accept) :=
    (performs_generate bounded limit 0).bind (Performs.emit limit (0 + pattern.width) .accept)
  have same := closed.same (rfl : ({} : Draft).pc = 0)
  have whole : complete limit pattern =
      (generate limit pattern >>= fun _ => emit limit .accept) >>= fun _ =>
        (do return Program.mk (← MonadState.get).code) := by
    rw [bind_assoc]
    rfl
  rw [whole]
  simp only [Bind.bind, EStateM.bind] at same ⊢
  rw [same]
  cases performAll limit pattern.journal {} <;> rfl

/-! ## What the operations keep -/

/-- The counter stands behind the last instruction and has not passed the limit. -/
structure Steady (limit : Nat) (draft : Draft) : Prop where
  counter : draft.pc = draft.code.size
  below : draft.code.size ≤ limit

def shapes (draft : Draft) : List Instruction :=
  draft.code.toList.map Instruction.shape

theorem shape_of_fill? {opening : Opening} {first second : Option Int}
    {old filled : Instruction} (fill : opening.fill? first second old = some filled) :
    filled.shape = old.shape := by
  unfold Opening.fill? at fill
  split at fill
  · cases fill
    rfl
  · cases fill
    rfl
  · cases fill

theorem shapes_set {index : Nat} {old new : Instruction} (there : draft.code[index]? = some old)
    (same : new.shape = old.shape) :
    shapes { draft with code := draft.code.setIfInBounds index new } = draft.shapes := by
  obtain ⟨inside, rfl⟩ := Array.getElem?_eq_some_iff.mp there
  have within : index < draft.shapes.length := by simpa [shapes] using inside
  have shape : draft.code[index].shape = draft.shapes[index] := by simp [shapes]
  calc shapes { draft with code := draft.code.setIfInBounds index new }
      = draft.shapes.set index new.shape := by
        simp only [shapes, Array.toList_setIfInBounds, List.map_set]
    _ = draft.shapes := by rw [same, shape, List.set_getElem_self]

theorem patch_cases (steady : draft.Steady limit) (address : Int) (opening : Opening)
    (failure : BuildError) (first second : Option Int) :
    (∃ next, patch address opening failure first second draft = .ok () next ∧
        next.Steady limit ∧ next.shapes = draft.shapes) ∨
      patch address opening failure first second draft = .error failure draft := by
  unfold patch
  split
  · exact .inr rfl
  · rename_i old found
    split
    · exact .inr rfl
    · rename_i filled fill
      refine .inl ⟨_, rfl, ⟨?_, ?_⟩, ?_⟩
      · simpa using steady.counter
      · simpa using steady.below
      · have there : draft.code[address.toNat]? = some old := by
          unfold instruction? at found
          split at found
          · cases found
          · exact found
        exact shapes_set there (shape_of_fill? fill)

/--
An operation on a steady draft emits its instruction or fills in a target, or it fails and leaves
the draft as it is, for the address only at the limit.
-/
theorem perform_cases (steady : draft.Steady limit) (operation : Operation) :
    (∃ next, operation.perform limit draft = .ok () next ∧ next.Steady limit ∧
        next.shapes = draft.shapes ++ operation.emitted.map Instruction.shape) ∨
      ∃ error, operation.perform limit draft = .error error draft ∧
        (error = .addressOverflow → draft.code.size = limit) := by
  have lands {address : Nat} {opening : Opening} {block : Block} (first second : Option Int) :
      (∃ next, patch address opening (.unpatched block) first second draft = .ok () next ∧
          next.Steady limit ∧ next.shapes = draft.shapes ++ [].map Instruction.shape) ∨
        ∃ error, patch address opening (.unpatched block) first second draft =
            .error error draft ∧
          (error = .addressOverflow → draft.code.size = limit) := by
    rw [List.map_nil, List.append_nil]
    rcases patch_cases steady address opening (.unpatched block) first second with done | failed
    · exact .inl done
    · exact .inr ⟨_, failed, fun overflow => by cases overflow⟩
  cases operation with
  | landJump address block => exact lands (some draft.pc) none
  | landSplit address block => exact lands none (some draft.pc)
  | emit instruction =>
      have start := eq_of steady.counter
      rcases Nat.lt_or_ge draft.code.size limit with room | full
      · have emitted := emit_of limit instruction draft.code.toList (by simpa using room)
        rw [← start] at emitted
        refine .inl ⟨_, bind_of emitted, ⟨by simp [of], by simp [of]; omega⟩, ?_⟩
        simp [shapes, of, Operation.emitted]
      · have stuck : skip limit draft = .error .addressOverflow draft := by
          have beyond : limit < draft.pc + 1 := by
            rw [steady.counter]
            omega
          simp only [skip, checkedAdd, if_pos beyond]
        refine .inr ⟨.addressOverflow, ?_, fun _ => Nat.le_antisymm steady.below full⟩
        simp only [Operation.perform, Bind.bind, EStateM.bind, emit_eq, stuck]

theorem steady_of_passes (steady : draft.Steady limit)
    (passes : Passes limit operations draft last) :
    last.Steady limit ∧
      last.shapes <+: draft.shapes ++ (operations.flatMap Operation.emitted).map .shape := by
  induction passes with
  | here => exact ⟨steady, List.prefix_append _ _⟩
  | @later operation rest draft next last done _ ih =>
      rcases perform_cases steady operation with ⟨_, same, kept, added⟩ | ⟨_, failed, -⟩
      · cases done.symm.trans same
        have front := ih kept
        rwa [added, List.append_assoc, ← List.map_append, ← List.flatMap_cons] at front
      · cases done.symm.trans failed
  | @failed operation rest draft last error stopped =>
      rcases perform_cases steady operation with ⟨_, done, -⟩ | ⟨_, same, -⟩
      · cases stopped.symm.trans done
      · cases stopped.symm.trans same
        exact ⟨steady, List.prefix_append _ _⟩

/-- All operations are performed, or one fails, for the address only at the limit. -/
theorem performAll_cases (steady : draft.Steady limit) (operations : List Operation) :
    (∃ last, performAll limit operations draft = .ok () last ∧
        Passes limit operations draft last ∧
        last.shapes = draft.shapes ++ (operations.flatMap Operation.emitted).map .shape) ∨
      ∃ error last, performAll limit operations draft = .error error last ∧
        Passes limit operations draft last ∧
        (error = .addressOverflow → last.code.size = limit) := by
  induction operations generalizing draft with
  | nil => exact .inl ⟨draft, rfl, .here, by simp⟩
  | cons operation rest ih =>
      rcases perform_cases steady operation with
        ⟨next, done, kept, added⟩ | ⟨error, stopped, full⟩
      · have onward : performAll limit (operation :: rest) draft = performAll limit rest next :=
          bind_of done
        rw [onward]
        rcases ih kept with ⟨last, all, passes, shapes⟩ | ⟨error, last, failed, passes, full⟩
        · rw [added, List.append_assoc, ← List.map_append, ← List.flatMap_cons] at shapes
          exact .inl ⟨last, all, .later done passes, shapes⟩
        · exact .inr ⟨error, last, failed, .later done passes, full⟩
      · have failed : performAll limit (operation :: rest) draft = .error error draft := by
          simp only [performAll, List.forM_cons, Bind.bind, EStateM.bind, stopped]
        exact .inr ⟨error, draft, failed, .failed stopped, full⟩

end Draft

end PatternMachine

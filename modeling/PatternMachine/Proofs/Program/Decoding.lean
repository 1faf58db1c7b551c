import PatternMachine.Proofs.Pattern.Flat
import PatternMachine.Proofs.Program.Ceiling

/-!
# Reading code back

Code has no marks for where its blocks begin and end, but the items it was generated from can be
read off the addresses. A split that names the next address opens a block, any other one ends a
loop whose body starts at its first target. A jump back to the split of the innermost block makes
this a star and any other jump makes it an alternative; a block that comes to its end without a
jump is optional. So patterns with the same program have the same items.
-/

namespace PatternMachine

/-- An item that was read, and the address at which its code starts. -/
structure ReadItem where
  start : Int
  item : Pattern

/-- A block whose code has not been read to its end. -/
structure OpenBlock where
  /-- The address of the split that opened it. -/
  start : Int
  /-- Where it ends, unless a jump is still to come. -/
  stop : Int
  /-- The first side of an alternative whose second side is being read. -/
  first : Option Pattern
  /-- What was read before the block, the newest item first. -/
  before : List ReadItem

/-- Code that was read up to an address. -/
structure Decoder where
  address : Int := 0
  /-- The items read in the innermost block, the newest first. -/
  done : List ReadItem := []
  /-- The blocks around them, the innermost first. -/
  blocks : List OpenBlock := []

namespace Decoder

/-! ## Reading -/

def inOrder (done : List ReadItem) : List Pattern :=
  (done.map ReadItem.item).reverse

/-- What was read once a block without a jump at its end is over. -/
def close (block : OpenBlock) (done : List ReadItem) : List ReadItem :=
  let body := Pattern.sequence (inOrder done)
  match block.first with
  | none => ⟨block.start, .repetition .zeroOrOne body⟩ :: block.before
  | some first => ⟨block.start, .alternative first body⟩ :: block.before

/-- Closes the blocks that end at an address, from the innermost on. -/
def closeAll (address : Int) (done : List ReadItem) : List OpenBlock → Decoder
  | [] => ⟨address, done, []⟩
  | block :: outer =>
      if block.stop = address then closeAll address (close block done) outer
      else ⟨address, done, block :: outer⟩

def settle (decoder : Decoder) : Decoder :=
  closeAll decoder.address decoder.done decoder.blocks

def read (decoder : Decoder) (item : Pattern) : Decoder :=
  { decoder with
    address := decoder.address + item.width
    done := ⟨decoder.address, item⟩ :: decoder.done }

def enter (decoder : Decoder) (stop : Int) : Decoder :=
  ⟨decoder.address + 1, [], ⟨decoder.address, stop, none, decoder.done⟩ :: decoder.blocks⟩

/-- Puts the items from an address on into a loop that ends here. -/
def loop (decoder : Decoder) (start : Int) : Decoder :=
  let inside (entry : ReadItem) : Bool := start ≤ entry.start
  let body := Pattern.sequence (inOrder (decoder.done.takeWhile inside))
  { decoder with
    address := decoder.address + 1
    done := ⟨start, .repetition .oneOrMore body⟩ :: decoder.done.dropWhile inside }

/-- Leaves the innermost block, or its first side, by a jump. -/
def leave (decoder : Decoder) (target : Int) : Decoder :=
  let body := Pattern.sequence (inOrder decoder.done)
  match decoder.blocks with
  | [] => { decoder with address := decoder.address + 1 }
  | block :: outer =>
      if target = block.start then
        ⟨decoder.address + 1, ⟨block.start, .repetition .zeroOrMore body⟩ :: block.before, outer⟩
      else ⟨decoder.address + 1, [], ⟨block.start, target, some body, block.before⟩ :: outer⟩

/-- Reads an instruction where no block ends. -/
def act (decoder : Decoder) : Instruction → Decoder
  | .literal symbol => decoder.read (.literal symbol)
  | .any => decoder.read .wildcard
  | .head => decoder.read .lineStart
  | .matchEnd => decoder.read .lineEnd
  | .jump target => decoder.leave target
  | .split one other =>
      if one = decoder.address + 1 then decoder.enter other else decoder.loop one
  | .accept => decoder

def step (decoder : Decoder) (instruction : Instruction) : Decoder :=
  decoder.settle.act instruction

end Decoder

/-- The items that a program was generated from. -/
def Program.items (program : Program) : List Pattern :=
  Decoder.inOrder (program.code.toList.foldl Decoder.step {}).done

namespace Decoder

variable {decoder : Decoder} {pattern : Pattern} {items : List Pattern} {width : Nat}

/-! ## Settling -/

theorem settle_closeAll (address : Int) (done : List ReadItem) (blocks : List OpenBlock) :
    (closeAll address done blocks).settle = closeAll address done blocks := by
  induction blocks generalizing done with
  | nil => rfl
  | cons block outer ih =>
      unfold closeAll
      split
      · exact ih _
      · rename_i other
        exact if_neg other

@[simp]
theorem settle_settle (decoder : Decoder) : decoder.settle.settle = decoder.settle :=
  settle_closeAll _ _ _

theorem settle_of_closed (closed : decoder.blocks = []) : decoder.settle = decoder := by
  obtain ⟨address, done, blocks⟩ := decoder
  cases closed
  rfl

theorem step_settle (decoder : Decoder) (instruction : Instruction) :
    decoder.settle.step instruction = decoder.step instruction := by
  rw [step, settle_settle, step]

theorem settle_foldl_settle (decoder : Decoder) (code : List Instruction) :
    (code.foldl step decoder.settle).settle = (code.foldl step decoder).settle := by
  cases code with
  | nil => exact settle_settle decoder
  | cons instruction rest => rw [List.foldl_cons, List.foldl_cons, step_settle]

/-- How code was read does not matter behind it, but for blocks that are over. -/
theorem settle_foldl_append {between : Decoder} {front : List Instruction}
    (first : (front.foldl step decoder).settle = between.settle) (back : List Instruction) :
    ((front ++ back).foldl step decoder).settle = (back.foldl step between).settle := by
  rw [List.foldl_append, ← settle_foldl_settle, first, settle_foldl_settle]

/-! ## Several items -/

def readAll (decoder : Decoder) (items : List Pattern) : Decoder :=
  items.foldl read decoder

theorem readAll_cons (decoder : Decoder) (item : Pattern) (rest : List Pattern) :
    decoder.readAll (item :: rest) = (decoder.read item).readAll rest :=
  rfl

theorem readAll_append (decoder : Decoder) (front back : List Pattern) :
    decoder.readAll (front ++ back) = (decoder.readAll front).readAll back :=
  List.foldl_append

@[simp]
theorem blocks_readAll (decoder : Decoder) (items : List Pattern) :
    (decoder.readAll items).blocks = decoder.blocks := by
  induction items generalizing decoder with
  | nil => rfl
  | cons item rest ih => exact ih (decoder.read item)

@[simp]
theorem address_readAll (decoder : Decoder) (items : List Pattern) :
    (decoder.readAll items).address = decoder.address + (Pattern.sequence items).width := by
  induction items generalizing decoder with
  | nil => exact (Int.add_zero _).symm
  | cons item rest ih =>
      rw [readAll_cons, ih, Pattern.width_cons, Int.natCast_add, ← Int.add_assoc]
      rfl

/-- The items that are read come on top, and their code starts where the reading began. -/
theorem exists_done_readAll (decoder : Decoder) (items : List Pattern) :
    ∃ front, (decoder.readAll items).done = front ++ decoder.done ∧ inOrder front = items ∧
      ∀ entry ∈ front, decoder.address ≤ entry.start := by
  induction items generalizing decoder with
  | nil => exact ⟨[], rfl, rfl, by simp⟩
  | cons item rest ih =>
      obtain ⟨front, done, order, above⟩ := ih (decoder.read item)
      refine ⟨front ++ [⟨decoder.address, item⟩], ?_, ?_, ?_⟩
      · rw [readAll_cons, done, List.append_assoc]
        rfl
      · rw [← order]
        simp [inOrder]
      · intro entry mem
        rcases List.mem_append.mp mem with later | first
        · exact Int.le_trans (Int.le_add_of_nonneg_right (Int.natCast_nonneg _)) (above entry later)
        · obtain rfl := List.mem_singleton.mp first
          exact Int.le_refl _

/-! ## Before code -/

/--
A decoder before code of a width: what it has read lies behind it, and no block is over before the
end of the code.
-/
structure Ready (decoder : Decoder) (width : Nat) : Prop where
  below : ∀ entry ∈ decoder.done, entry.start < decoder.address
  room : ∀ block ∈ decoder.blocks, decoder.address + width ≤ block.stop

namespace Ready

theorem settle_eq (ready : decoder.Ready width) (positive : 0 < width) :
    decoder.settle = decoder := by
  obtain ⟨address, done, blocks⟩ := decoder
  cases blocks with
  | nil => rfl
  | cons block outer =>
      have room : address + width ≤ block.stop := ready.room block List.mem_cons_self
      have later : block.stop ≠ address := by omega
      exact if_neg later

theorem mono {less : Nat} (ready : decoder.Ready width) (le : less ≤ width) :
    decoder.Ready less where
  below := ready.below
  room block mem := by
    have room := ready.room block mem
    omega

theorem enter (ready : decoder.Ready (width + 1)) {stop : Int}
    (inside : decoder.address + 1 + width ≤ stop) : (decoder.enter stop).Ready width where
  below := by simp [Decoder.enter]
  room block mem := by
    rcases List.mem_cons.mp mem with rfl | outer
    · exact inside
    · have room := ready.room block outer
      dsimp only [Decoder.enter]
      omega

theorem read {item : Pattern} (ready : decoder.Ready (item.width + width))
    (positive : 0 < item.width) : (decoder.read item).Ready width where
  below entry mem := by
    have behind : decoder.address < (decoder.read item).address := by
      dsimp only [Decoder.read]
      omega
    rcases List.mem_cons.mp mem with rfl | earlier
    · exact behind
    · exact Int.lt_trans (ready.below entry earlier) behind
  room block mem := by
    have room := ready.room block mem
    dsimp only [Decoder.read]
    omega

theorem readAll (ready : decoder.Ready ((Pattern.sequence items).width + width))
    (positive : ∀ item ∈ items, 0 < item.width) : (decoder.readAll items).Ready width := by
  induction items generalizing decoder with
  | nil => exact ready.mono (Nat.le_add_left _ _)
  | cons item rest ih =>
      obtain ⟨first, others⟩ := List.forall_mem_cons.mp positive
      rw [Pattern.width_cons, Nat.add_assoc] at ready
      exact ih (ready.read first) others

end Ready

theorem step_eq (ready : decoder.Ready width) (positive : 0 < width) (instruction : Instruction) :
    decoder.step instruction = decoder.act instruction := by
  rw [step, ready.settle_eq positive]

/-! ## Blocks -/

theorem inOrder_readAll (nothing : decoder.done = []) (items : List Pattern) :
    inOrder (decoder.readAll items).done = items := by
  obtain ⟨front, done, order, -⟩ := decoder.exists_done_readAll items
  rw [done, nothing, List.append_nil, order]

theorem loop_readAll (ready : decoder.Ready width) (items : List Pattern) :
    (decoder.readAll items).loop decoder.address =
      decoder.read (.repetition .oneOrMore (.sequence items)) := by
  obtain ⟨front, done, order, above⟩ := decoder.exists_done_readAll items
  let inside (entry : ReadItem) : Bool := decoder.address ≤ entry.start
  have within : ∀ entry ∈ front, inside entry = true :=
    fun entry mem => decide_eq_true (above entry mem)
  have before : decoder.done.takeWhile inside = [] ∧
      decoder.done.dropWhile inside = decoder.done := by
    cases earlier : decoder.done with
    | nil => exact ⟨rfl, rfl⟩
    | cons entry rest =>
        have below := ready.below entry (earlier ▸ List.mem_cons_self)
        have outside : ¬ inside entry = true := by
          rw [decide_eq_true_eq]
          exact Int.not_le_of_gt below
        exact ⟨List.takeWhile_cons_of_neg outside, List.dropWhile_cons_of_neg outside⟩
  have taken : (front ++ decoder.done).takeWhile inside = front := by
    rw [List.takeWhile_append_of_pos within, before.1, List.append_nil]
  have left : (front ++ decoder.done).dropWhile inside = decoder.done := by
    rw [List.dropWhile_append_of_pos within, before.2]
  unfold loop
  simp only [done, address_readAll, blocks_readAll]
  rw [taken, left, order, Int.add_assoc]
  rfl

/-- A block with a jump back to its split is a star. -/
theorem leave_star (decoder : Decoder) (stop : Int) (items : List Pattern) :
    ((decoder.enter stop).readAll items).leave decoder.address =
      decoder.read (.repetition .zeroOrMore (.sequence items)) := by
  have behind : decoder.address + 1 + (Pattern.sequence items).width + 1 =
      decoder.address + ((Pattern.sequence items).width + 2 : Nat) := by omega
  unfold leave
  rw [inOrder_readAll rfl, blocks_readAll, address_readAll]
  simp only [enter, if_true, behind]
  rfl

/-- The second side of an alternative that starts here and whose first side was read. -/
def otherSide (decoder : Decoder) (stop : Int) (first : List Pattern) : Decoder :=
  ⟨decoder.address + (Pattern.sequence first).width + 2, [],
    ⟨decoder.address, stop, some (.sequence first), decoder.done⟩ :: decoder.blocks⟩

/-- A block with a jump elsewhere is an alternative. -/
theorem leave_first (decoder : Decoder) (stop target : Int)
    (elsewhere : target ≠ decoder.address) (items : List Pattern) :
    ((decoder.enter stop).readAll items).leave target = decoder.otherSide target items := by
  have behind : decoder.address + 1 + (Pattern.sequence items).width + 1 =
      decoder.address + (Pattern.sequence items).width + 2 := by omega
  unfold leave
  rw [inOrder_readAll rfl, blocks_readAll, address_readAll]
  simp only [enter, if_neg elsewhere, behind]
  rfl

theorem settle_over {block : OpenBlock} {outer : List OpenBlock}
    (blocks : decoder.blocks = block :: outer) (ends : block.stop = decoder.address) :
    decoder.settle = (Decoder.mk decoder.address (close block decoder.done) outer).settle := by
  unfold settle
  rw [blocks]
  exact if_pos ends

theorem settle_optional (decoder : Decoder) (items : List Pattern) {stop : Int}
    (ends : stop = decoder.address + (Pattern.sequence items).width + 1) :
    ((decoder.enter stop).readAll items).settle =
      (decoder.read (.repetition .zeroOrOne (.sequence items))).settle := by
  have behind : decoder.address + 1 + (Pattern.sequence items).width = stop := by omega
  have address : ((decoder.enter stop).readAll items).address = stop := by
    rw [address_readAll]
    exact behind
  rw [settle_over (blocks_readAll _ _) address.symm, address]
  unfold close
  rw [inOrder_readAll rfl, ends, Int.add_assoc]
  rfl

theorem settle_alternative (decoder : Decoder) (first second : List Pattern) {stop : Int}
    (ends : stop = decoder.address + (Pattern.sequence first).width + 2 +
      (Pattern.sequence second).width) :
    ((decoder.otherSide stop first).readAll second).settle =
      (decoder.read (.alternative (.sequence first) (.sequence second))).settle := by
  have address : ((decoder.otherSide stop first).readAll second).address = stop := by
    rw [address_readAll]
    exact ends.symm
  have behind : stop = decoder.address +
      ((Pattern.sequence first).width + (Pattern.sequence second).width + 2 : Nat) := by omega
  rw [settle_over (blocks_readAll _ _) address.symm, address]
  unfold close
  rw [inOrder_readAll rfl, behind]
  rfl

/-! ## Code of patterns -/

namespace Ready

theorem readAll_flat (ready : decoder.Ready (pattern.width + width)) (bounded : pattern.Bounded) :
    (decoder.readAll pattern.flat).Ready width := by
  apply Ready.readAll
  · rw [Pattern.width_flat]
    exact ready
  · exact fun _ => Pattern.width_pos_of_mem_flat bounded

theorem otherSide {first : List Pattern} {stop : Int}
    (ready : decoder.Ready ((Pattern.sequence first).width + width + 2))
    (inside : decoder.address + (Pattern.sequence first).width + 2 + width ≤ stop) :
    (decoder.otherSide stop first).Ready width where
  below := by simp [Decoder.otherSide]
  room block mem := by
    rcases List.mem_cons.mp mem with rfl | outer
    · exact inside
    · have room := ready.room block outer
      dsimp only [Decoder.otherSide]
      omega

end Ready

/-- A split that names the next address opens a block, in which there is room for some code. -/
theorem step_split (ready : decoder.Ready (width + 1)) {start : Nat}
    (here : decoder.address = start) (stop : Int) (inside : (start : Int) + 1 + width ≤ stop) :
    decoder.step (.split (start + 1) stop) = decoder.enter stop ∧
      (decoder.enter stop).address = (start + 1 : Nat) ∧ (decoder.enter stop).Ready width := by
  constructor
  · rw [step_eq ready (Nat.succ_pos _), act, here, if_pos rfl]
  · constructor
    · exact congrArg (· + 1) here
    · exact ready.enter (here ▸ inside)

theorem step_jump (ready : decoder.Ready (pattern.width + 1)) (bounded : pattern.Bounded)
    (target : Int) :
    (decoder.readAll pattern.flat).step (.jump target) =
      (decoder.readAll pattern.flat).leave target :=
  step_eq (ready.readAll_flat bounded) Nat.one_pos _

theorem step_split_back (ready : decoder.Ready (pattern.width + 1)) (bounded : pattern.Bounded)
    {start : Int} (here : decoder.address = start) (stop : Int) :
    (decoder.readAll pattern.flat).step (.split start stop) =
      decoder.read (.repetition .oneOrMore (.sequence pattern.flat)) := by
  have behind : start ≠ (decoder.readAll pattern.flat).address + 1 := by
    rw [address_readAll, here]
    omega
  rw [step_eq (ready.readAll_flat bounded) Nat.one_pos, act, if_neg behind, ← here]
  exact loop_readAll ready pattern.flat

/-- The code of a pattern is read as its items, wherever it starts. -/
def Reads (pattern : Pattern) : Prop :=
  ∀ {decoder : Decoder} {start : Nat}, decoder.address = start → decoder.Ready pattern.width →
    ((pattern.code start).foldl step decoder).settle = (decoder.readAll pattern.flat).settle

namespace Reads

variable {first second body item : Pattern} {rest : List Pattern}

theorem leaf {instruction : Instruction} (width : pattern.width = 1)
    (code : ∀ start, pattern.code start = [instruction])
    (act : ∀ decoder : Decoder, decoder.act instruction = decoder.readAll pattern.flat) :
    Reads pattern := by
  intro decoder start here ready
  rw [code, List.foldl_cons, List.foldl_nil, step_eq ready (width ▸ Nat.one_pos), act]

theorem cons (bounded : item.Bounded) (one : Reads item) (others : Reads (.sequence rest)) :
    Reads (.sequence (item :: rest)) := by
  intro decoder start here ready
  have address : (decoder.readAll item.flat).address = (start + item.width : Nat) := by
    rw [address_readAll, here, Pattern.width_flat, Int.natCast_add]
  rw [Pattern.code_cons, settle_foldl_append (one here (ready.mono (Nat.le_add_right _ _))),
    others address (ready.readAll_flat bounded), Pattern.flat_cons, readAll_append]

theorem alternative (bounded : first.Bounded) (one : Reads first) (two : Reads second) :
    Reads (.alternative first second) := by
  intro decoder start here ready
  rw [Pattern.width] at ready
  obtain ⟨other, otherEq⟩ : ∃ other, other = start + first.width + 2 := ⟨_, rfl⟩
  obtain ⟨stop, stopEq⟩ : ∃ stop : Int, stop = other + second.width := ⟨_, rfl⟩
  have enough : first.width + 2 ≤ first.width + second.width + 2 :=
    Nat.add_le_add_right (Nat.le_add_right _ _) 2
  obtain ⟨opened, next, inside⟩ := step_split (ready.mono enough) here other (by omega)
  have turned : (decoder.otherSide stop first.flat).address = other := by
    simp [otherSide, here, otherEq]
  have ready' : (decoder.otherSide stop first.flat).Ready second.width :=
    Ready.otherSide (by simpa using ready) (by simp [here, otherEq, stopEq])
  rw [Pattern.code, ← otherEq, ← stopEq, List.foldl_cons, opened,
    settle_foldl_append (one next (inside.mono (Nat.le_succ _))), List.foldl_cons,
    -- The jump leads behind the first side, so the decoder takes the block for an alternative.
    step_jump inside bounded, leave_first decoder other stop (by omega), two turned ready',
    settle_alternative]
  · rfl
  · simp [here, otherEq, stopEq]

theorem oneOrMore (bounded : body.Bounded) (one : Reads body) :
    Reads (.repetition .oneOrMore body) := by
  intro decoder start here ready
  rw [Pattern.code, settle_foldl_append (one here (ready.mono (Nat.le_succ _))), List.foldl_cons,
    List.foldl_nil, step_split_back ready bounded here]
  rfl

theorem zeroOrMore (bounded : body.Bounded) (one : Reads body) :
    Reads (.repetition .zeroOrMore body) := by
  intro decoder start here ready
  obtain ⟨opened, next, inside⟩ := step_split ready here (start + body.width + 2) (by omega)
  rw [Pattern.code, List.foldl_cons, opened,
    settle_foldl_append (one next (inside.mono (Nat.le_succ _))), List.foldl_cons, List.foldl_nil,
    step_jump inside bounded, ← here, leave_star]
  rfl

theorem zeroOrOne (one : Reads body) : Reads (.repetition .zeroOrOne body) := by
  intro decoder start here ready
  obtain ⟨opened, next, inside⟩ := step_split ready here (start + body.width + 1) (by omega)
  rw [Pattern.code, List.foldl_cons, opened, one next inside, settle_optional]
  · rfl
  · rw [here, Pattern.width_flat]

end Reads

theorem reads (bounded : pattern.Bounded) : Reads pattern := by
  induction pattern using Pattern.byItems with
  | literal symbol => exact Reads.leaf rfl (fun _ => rfl) (fun _ => rfl)
  | wildcard => exact Reads.leaf rfl (fun _ => rfl) (fun _ => rfl)
  | lineStart => exact Reads.leaf rfl (fun _ => rfl) (fun _ => rfl)
  | lineEnd => exact Reads.leaf rfl (fun _ => rfl) (fun _ => rfl)
  | nil => exact fun _ _ => rfl
  | cons item rest ihItem ihRest =>
      obtain ⟨itemBounded, restBounded⟩ := Pattern.Bounded.cons_iff.mp bounded
      exact Reads.cons itemBounded (ihItem itemBounded) (ihRest restBounded)
  | alternative first second ihFirst ihSecond =>
      obtain ⟨firstBounded, secondBounded⟩ := Pattern.Bounded.alternative_iff.mp bounded
      exact Reads.alternative firstBounded (ihFirst firstBounded) (ihSecond secondBounded)
  | repetition quantifier body ih =>
      obtain ⟨given, bodyBounded⟩ := Pattern.Bounded.repetition_iff.mp bounded
      cases quantifier with
      | unspecified => exact absurd rfl given
      | oneOrMore => exact Reads.oneOrMore bodyBounded (ih bodyBounded)
      | zeroOrMore => exact Reads.zeroOrMore bodyBounded (ih bodyBounded)
      | zeroOrOne => exact Reads.zeroOrOne (ih bodyBounded)

end Decoder

/-! ## Whole programs -/

namespace Pattern

variable {config : Config} {pattern other : Pattern} {program : Program}

/-- The items of a pattern can be read off its program. -/
theorem items_program (bounded : pattern.Bounded) : pattern.program.items = pattern.flat := by
  have ready : ({} : Decoder).Ready pattern.width := ⟨by simp, by simp⟩
  have coded := Decoder.reads bounded Int.natCast_zero.symm ready
  have whole := Decoder.settle_of_closed (Decoder.blocks_readAll {} pattern.flat)
  have last : pattern.program.code.toList.foldl Decoder.step {} =
      ({} : Decoder).readAll pattern.flat := by
    rw [program, List.toList_toArray, List.foldl_append, ← whole, ← coded]
    rfl
  rw [Program.items, last, Decoder.inOrder_readAll rfl]

theorem program_eq_iff (bounded : pattern.Bounded) (bounded' : other.Bounded) :
    pattern.program = other.program ↔ pattern.flat = other.flat := by
  constructor
  · intro same
    rw [← items_program bounded, same, items_program bounded']
  · intro same
    rw [← program_flat pattern, same, program_flat]

/--
Different patterns never have the same code. A bounded pattern is built wherever its program fits,
and the items of its normal form can be read off what was built. Under the same configuration
another bounded pattern is built to the same program just when its normal form has the same items.
-/
theorem build_same_iff_flat (bounded : pattern.Bounded) (bounded' : other.Bounded)
    (config : Config) :
    (pattern.normal.program.size ≤ config.maxAddress →
      ∃ program, (pattern.build config).value = .ok program) ∧
    ∀ program, (pattern.build config).value = .ok program →
      program.items = pattern.normal.flat ∧
        ((other.build config).value = .ok program ↔
          pattern.normal.flat = other.normal.flat) := by
  constructor
  · exact fun fits => ⟨_, build_of_fits bounded fits⟩
  · intro program built
    obtain ⟨fits, rfl⟩ := (build_eq_ok_iff bounded).mp built
    refine ⟨items_program bounded.normal, ?_⟩
    rw [← program_eq_iff bounded.normal bounded'.normal, build_eq_ok_iff bounded']
    constructor
    · rintro ⟨-, same⟩
      exact same
    · exact fun same => ⟨same ▸ fits, same⟩

/-- A loop that does nothing, and an option with an empty side. -/
def emptySides : Pattern :=
  .sequence
    [.repetition .zeroOrMore (.sequence
        [.repetition .zeroOrMore (.repetition .oneOrMore (.sequence []))]),
      .repetition .zeroOrOne (.alternative (.literal "a") (.sequence []))]

/-- The same with other groups and without the outer star. -/
def regrouped : Pattern :=
  .sequence
    [.sequence [.repetition .zeroOrMore (.sequence
        [.sequence [], .repetition .oneOrMore (.sequence [])])],
      .repetition .zeroOrOne (.sequence
        [.alternative (.sequence [.sequence [.literal "a"]]) (.sequence [])])]

/-- The same with the option inside the first side. -/
def exchanged : Pattern :=
  .sequence
    [.repetition .zeroOrMore (.repetition .oneOrMore (.sequence [])),
      .alternative (.repetition .zeroOrOne (.literal "a")) (.sequence [])]

theorem build_same_iff_flat_emptySides :
    emptySides.Bounded ∧ regrouped.Bounded ∧ exchanged.Bounded ∧
      ∃ program, (emptySides.build {}).value = .ok program ∧
        program.code = #[.split 1 3, .split 1 2, .jump 0, .split 4 7, .split 5 7, .literal "a",
          .jump 7, .accept] ∧
        (regrouped.build {}).value = .ok program ∧
        (exchanged.build {}).value ≠ .ok program := by
  have bounded : emptySides.Bounded := by decide
  have bounded' : regrouped.Bounded := by decide
  have bounded'' : exchanged.Bounded := by decide
  obtain ⟨builds, same⟩ := build_same_iff_flat bounded bounded' {}
  obtain ⟨program, built⟩ := builds (by decide)
  obtain ⟨-, exchange⟩ := (build_same_iff_flat bounded bounded'' {}).2 program built
  refine ⟨bounded, bounded', bounded'', program, built, ?_, (same program built).2.mpr (by decide),
    mt exchange.mp (by decide)⟩
  rw [build_eq_ok bounded (by decide) built]
  decide

end Pattern

end PatternMachine

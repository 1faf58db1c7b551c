import PatternMachine.Counter
import PatternMachine.Pattern.Basic
import PatternMachine.Pattern.Written
import PatternMachine.Program.Basic

/-!
# Programs under construction

Code is generated in one pass over a tree. A target that is not known yet is emitted as zero and
filled in once its address has been reached. The address counter of a draft runs ahead of its
instructions when an address is skipped. An operation that fails leaves the draft as far as it
has come.
-/

namespace PatternMachine

/-- The blocks with a target that is filled in later. -/
inductive Block where
  | star
  | alternative
  | optional
  deriving DecidableEq

inductive BuildError where
  /-- The next address would pass the limit. -/
  | addressOverflow
  /-- The instruction whose target is to be filled in is not there. -/
  | unpatched (block : Block)
  /-- No code is known for a part of the pattern. -/
  | uncompilable (pattern : Pattern)
  deriving DecidableEq

namespace BuildError

def message : BuildError → String
  | .addressOverflow => "program counter overflow"
  | .unpatched .star => "failed to patch star loop"
  | .unpatched .alternative => "failed to patch alternation"
  | .unpatched .optional => "failed to patch optional"
  | .uncompilable pattern =>
      match pattern.written with
      | .ok text => "cannot compile " ++ text
      | .error problem => problem.message

end BuildError

/-- The instructions emitted so far and the address of the next one. -/
structure Draft where
  pc : Nat := 0
  code : Array Instruction := #[]
  deriving DecidableEq

abbrev Draft.Build := EStateM BuildError Draft

/-- The instructions with targets to fill in. -/
inductive Opening where
  | jump
  | split
  deriving DecidableEq

namespace Opening

/-- The instruction with new targets where they are given, if it is of the right kind. -/
def fill? (first second : Option Int) : Opening → Instruction → Option Instruction
  | .jump, .jump target => some (.jump (first.getD target))
  | .split, .split one two => some (.split (first.getD one) (second.getD two))
  | _, _ => none

end Opening

namespace Draft

def skip (limit : Nat) : Build Unit := fun draft =>
  match checkedAdd draft.pc 1 limit BuildError.addressOverflow with
  | .ok pc => .ok () { draft with pc := pc }
  | .error error => .error error draft

def emit (limit : Nat) (instruction : Instruction) : Build Nat := do
  let address := (← get).pc
  skip limit
  modify fun draft => { draft with code := draft.code.push instruction }
  return address

def instruction? (draft : Draft) (address : Int) : Option Instruction :=
  if address < 0 then none else draft.code[address.toNat]?

/-- Fills in targets of the instruction at an address, or fails with the given error. -/
def patch (address : Int) (opening : Opening) (failure : BuildError)
    (first second : Option Int) : Build Unit := fun draft =>
  match draft.instruction? address with
  | none => .error failure draft
  | some instruction =>
      match opening.fill? first second instruction with
      | none => .error failure draft
      | some filled =>
          .ok () { draft with code := draft.code.setIfInBounds address.toNat filled }

def landJump (address : Nat) (block : Block) : Build Unit := do
  patch address .jump (.unpatched block) (some (← get).pc) none

def landSplit (address : Nat) (block : Block) : Build Unit := do
  patch address .split (.unpatched block) none (some (← get).pc)

/-- Emits a split whose first target follows it and whose second is not known yet. -/
def openSplit (limit : Nat) : Build Nat := do
  emit limit (.split ((← get).pc + 1) 0)

mutual

def generate (limit : Nat) : Pattern → Build Unit
  | .literal symbol => do
      let _ ← emit limit (.literal symbol)
  | .wildcard => do
      let _ ← emit limit .any
  | .lineStart => do
      let _ ← emit limit .head
  | .lineEnd => do
      let _ ← emit limit .matchEnd
  | .sequence items => generateAll limit items
  | .alternative first second => do
      let fork ← openSplit limit
      generate limit first
      let exit ← emit limit (.jump 0)
      landSplit fork .alternative
      generate limit second
      landJump exit .alternative
  | .repetition .oneOrMore body => do
      let start := (← get).pc
      generate limit body
      let _ ← emit limit (.split start ((← get).pc + 1))
  | .repetition .zeroOrMore body => do
      let start ← openSplit limit
      generate limit body
      let _ ← emit limit (.jump start)
      landSplit start .star
  | .repetition .zeroOrOne body => do
      let fork ← openSplit limit
      generate limit body
      landSplit fork .optional
  | .repetition .unspecified body => throw (.uncompilable (.repetition .unspecified body))

def generateAll (limit : Nat) : List Pattern → Build Unit
  | [] => pure ()
  | item :: rest => do
      generate limit item
      generateAll limit rest

end

/-- Generates the code of a whole pattern and the instruction that accepts. -/
def complete (limit : Nat) (pattern : Pattern) : Build Program := do
  generate limit pattern
  let _ ← emit limit .accept
  return ⟨(← get).code⟩

end Draft

end PatternMachine

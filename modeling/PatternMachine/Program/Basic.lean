import PatternMachine.Program.Instruction

/-!
# Programs

A program is a row of instructions; the place of an instruction is its address. A program is
valid when every target is the address of an instruction.
-/

namespace PatternMachine

structure Program where
  code : Array Instruction := #[]
  deriving DecidableEq

inductive IndexError where
  /-- The program is shorter. -/
  | outOfRange
  /-- The index does not fit a signed word of 64 bits. -/
  | tooWide
  deriving DecidableEq

namespace IndexError

def message : IndexError → String
  | .outOfRange => "tuple index out of range"
  | .tooWide => "cannot fit 'int' into an index-sized integer"

end IndexError

namespace Program

def size (program : Program) : Nat :=
  program.code.size

def splits (program : Program) : Nat :=
  program.code.countP Instruction.isSplit

def fetch? (program : Program) (address : Int) : Option Instruction :=
  if address < 0 then none else program.code[address.toNat]?

/-- The instruction at an index; a negative index counts from the end. -/
def get (program : Program) (index : Int) : Except IndexError Instruction :=
  if index < -9223372036854775808 ∨ 9223372036854775807 < index then .error .tooWide
  else
    match program.fetch? (if index < 0 then index + program.size else index) with
    | some instruction => .ok instruction
    | none => .error .outOfRange

/-- The target is the address of an instruction. -/
def inBounds (program : Program) (target : Int) : Bool :=
  0 ≤ target && target < program.size

/-- Every target is the address of an instruction. -/
def isValid (program : Program) : Bool :=
  program.code.all fun instruction => instruction.targets.all program.inBounds

/-- The lines of a listing from an address on; the first symbol without a name decides. -/
def listedFrom (address : Nat) : List Instruction → Except Uncoded (List String)
  | [] => .ok []
  | instruction :: rest =>
      match instruction.listed with
      | .error problem => .error problem
      | .ok text =>
          match listedFrom (address + 1) rest with
          | .error problem => .error problem
          | .ok lines => .ok ((Text.decimal4 address ++ ": " ++ text) :: lines)

/-- The listing of a program, one instruction a line. -/
def listing (program : Program) : Except Uncoded String :=
  match listedFrom 0 program.code.toList with
  | .error problem => .error problem
  | .ok lines => .ok (String.intercalate "\n" lines)

theorem fetch?_eq_none_iff {program : Program} {address : Int} :
    program.fetch? address = none ↔ program.inBounds address = false := by
  unfold fetch? inBounds size
  split <;> simp <;> omega

end Program

end PatternMachine

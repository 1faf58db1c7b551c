import PatternMachine.Text.Symbol

/-!
# Instructions

The instruction set of the machine, the short form of an instruction and its line in a listing.
Targets are integers: those of a program written by hand may lie anywhere.
-/

namespace PatternMachine

inductive Instruction where
  /-- Consumes one symbol equal to the given one. -/
  | literal (symbol : Symbol)
  /-- Consumes any one symbol. -/
  | any
  /-- Goes on only at offset zero. -/
  | head
  /-- Accepts only at the end of the input. -/
  | matchEnd
  /-- Goes on at the target. -/
  | jump (target : Int)
  /-- Goes on at the first target and at the second. -/
  | split (first second : Int)
  /-- Accepts. -/
  | accept
  deriving DecidableEq

namespace Instruction

def isSplit : Instruction → Bool
  | .split _ _ => true
  | _ => false

def targets : Instruction → List Int
  | .jump target => [target]
  | .split first second => [first, second]
  | _ => []

def written : Instruction → String
  | .literal symbol => "Inst(CHAR, " ++ Text.quote symbol ++ ")"
  | .any => "Inst(ANY)"
  | .head => "Inst(HEAD)"
  | .matchEnd => "Inst(MATCH_END)"
  | .jump target => "Inst(JUMP, " ++ toString target ++ ")"
  | .split first second => "Inst(SPLIT, " ++ toString first ++ ", " ++ toString second ++ ")"
  | .accept => "Inst(MATCH)"

/-- The form of an instruction in a listing; a printable symbol stands there as it is. -/
def listed : Instruction → Except Uncoded String
  | .literal symbol =>
      match symbol.named id with
      | .ok name => .ok ("char " ++ name)
      | .error problem => .error problem
  | .any => .ok "any"
  | .head => .ok "head"
  | .matchEnd => .ok "match_end"
  | .jump target => .ok ("jump " ++ Text.decimal4 target)
  | .split first second =>
      .ok ("split " ++ Text.decimal4 first ++ ", " ++ Text.decimal4 second)
  | .accept => .ok "match"

end Instruction

end PatternMachine

/-!
# Faults

Why an evaluation cannot finish, and at which address.
-/

namespace PatternMachine

inductive FaultReason where
  | addressOverflow
  | offsetOverflow
  | invalidAddress
  | noContext
  | depthLimit
  /-- The offset is negative and further from the end than the start of the input. -/
  | noSymbol
  /-- The program turns in circles without consuming input or splitting. -/
  | endless
  deriving DecidableEq

namespace FaultReason

def text : FaultReason → String
  | .addressOverflow => "program counter overflow"
  | .offsetOverflow => "string pointer overflow"
  | .invalidAddress => "program counter out of range"
  | .noContext => "no saved context to resume"
  | .depthLimit => "recursion limit exceeded"
  | .noSymbol => "index out of range"
  | .endless => "evaluation does not end"

end FaultReason

/-- A reason and the address where it arose; a negative address is none. -/
structure Fault where
  reason : FaultReason
  address : Int := -1
  deriving DecidableEq

namespace Fault

/-- The fault in words: the reason, then the address if there is one. -/
def message (fault : Fault) : String :=
  if fault.address < 0 then fault.reason.text
  else fault.reason.text ++ " at pc " ++ toString fault.address

end Fault

end PatternMachine

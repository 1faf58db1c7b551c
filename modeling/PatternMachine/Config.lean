import PatternMachine.Text.Quoted

/-!
# Configuration

The strategy of an evaluation and the limits on addresses, offsets and nesting. Limits are given
as integers and are never negative.
-/

namespace PatternMachine

inductive Strategy where
  /-- Both sides are explored and their verdicts merged. -/
  | depthFirst
  /-- The second side waits until the first has failed. -/
  | breadthFirst
  deriving DecidableEq

namespace Strategy

def name : Strategy → String
  | .depthFirst => "depth"
  | .breadthFirst => "breadth"

def all : List Strategy :=
  [.depthFirst, .breadthFirst]

def ofName? (name : String) : Option Strategy :=
  all.find? fun strategy => strategy.name = name

end Strategy

inductive Limit where
  | address
  | offset
  | depth
  deriving DecidableEq

namespace Limit

def label : Limit → String
  | .address => "max_address"
  | .offset => "max_offset"
  | .depth => "max_depth"

end Limit

inductive ConfigError where
  | unknownStrategy (name : String)
  | negativeLimit (limit : Limit) (value : Int)
  deriving DecidableEq

namespace ConfigError

def message : ConfigError → String
  | .unknownStrategy name => Text.quote name ++ " is not a valid Strategy"
  | .negativeLimit limit value => limit.label ++ " must be >= 0, got " ++ toString value

end ConfigError

/-- What governs building and evaluating programs. -/
structure Config where
  /-- The strategy of an evaluation that does not choose one. -/
  strategy : Strategy := .depthFirst
  /-- The ceiling of addresses, in building and in evaluating. -/
  maxAddress : Nat := 9223372036854775807
  /-- The ceiling of offsets. -/
  maxOffset : Nat := 9223372036854775807
  /-- The most splits that a depth-first path may nest. -/
  maxDepth : Nat := 100000
  /-- Warn of patterns with content after an end anchor. -/
  warnUnreachable : Bool := true
  deriving DecidableEq

namespace Config

def breadthFirst : Config :=
  { strategy := .breadthFirst }

def checkedLimit (limit : Limit) (value : Int) : Except ConfigError Nat :=
  if value < 0 then .error (.negativeLimit limit value) else .ok value.toNat

def strategyNamed (name : String) : Except ConfigError Strategy :=
  match Strategy.ofName? name with
  | none => .error (.unknownStrategy name)
  | some strategy => .ok strategy

/-- A configuration with the given limits, checked in the order of the arguments. -/
def ofLimits (strategy : Strategy) (maxAddress maxOffset maxDepth : Int)
    (warnUnreachable : Bool) : Except ConfigError Config :=
  match checkedLimit .address maxAddress with
  | .error error => .error error
  | .ok address =>
      match checkedLimit .offset maxOffset with
      | .error error => .error error
      | .ok offset =>
          match checkedLimit .depth maxDepth with
          | .error error => .error error
          | .ok depth => .ok ⟨strategy, address, offset, depth, warnUnreachable⟩

/-- A configuration with the named strategy, which is checked before the limits. -/
def ofValues (strategy : String) (maxAddress maxOffset maxDepth : Int)
    (warnUnreachable : Bool) : Except ConfigError Config :=
  match strategyNamed strategy with
  | .error error => .error error
  | .ok strategy => ofLimits strategy maxAddress maxOffset maxDepth warnUnreachable

end Config

end PatternMachine

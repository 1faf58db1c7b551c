import PatternMachine.Config
import PatternMachine.Machine.Fault
import PatternMachine.Machine.Verdict
import PatternMachine.Pattern.Written

/-!
# Events

What building, evaluating and scanning report while they work. Every event has a level and a
channel. An event is put into words only where it is shown, so that reporting never fails: the
warning of a pattern that has no text form is reported like any other, and has no words.
-/

namespace PatternMachine

inductive Severity where
  | debug
  | info
  | warning
  | error
  deriving DecidableEq

namespace Severity

def label : Severity → String
  | .debug => "DEBUG"
  | .info => "INFO"
  | .warning => "WARNING"
  | .error => "ERROR"

def rank : Severity → Nat
  | .debug => 0
  | .info => 1
  | .warning => 2
  | .error => 3

end Severity

inductive Event where
  /-- A normal pattern has content after an end anchor. -/
  | unreachableContent (normal : Pattern)
  /-- A program was built from a normal pattern. -/
  | generated (instructions nodes : Nat) (lineStart lineEnd : Bool)
  /-- An evaluation over a number of symbols returned. -/
  | evaluated (strategy : Strategy) (symbols : Nat) (verdict : Verdict)
  /-- The search of a line ended with a match. -/
  | matchedAt (offset : Nat)
  /-- A pattern could not be compiled. -/
  | invalidPattern (source problem : String)
  /-- A line of an input could not be evaluated. -/
  | evaluationFailed (input : String) (line : Nat) (fault : Fault)
  /-- An input could not be read. -/
  | unreadable (input problem : String)
  /-- The number of matching lines over all inputs. -/
  | total (lines : Nat)
  deriving DecidableEq

namespace Event

def severity : Event → Severity
  | .unreachableContent _ => .warning
  | .generated _ _ _ _ | .evaluated _ _ _ | .matchedAt _ => .debug
  | .invalidPattern _ _ | .evaluationFailed _ _ _ | .unreadable _ _ => .error
  | .total _ => .info

def channel : Event → String
  | .unreachableContent _ | .generated _ _ _ _ => "bytere.vm.builder"
  | .evaluated _ _ _ => "bytere.vm.interpreter"
  | .matchedAt _ => "bytere.matcher"
  | .invalidPattern _ _ | .evaluationFailed _ _ _ | .unreadable _ _ | .total _ => "bytere"

/-- The event in words, unless it quotes a pattern that cannot be written. -/
def message : Event → Except Uncoded String
  | .unreachableContent normal =>
      match normal.written with
      | .error problem => .error problem
      | .ok written => .ok ("pattern has content after '$' that can never match: " ++ written)
  | .generated instructions nodes lineStart lineEnd =>
      .ok ("generated " ++ toString instructions ++ " instructions from " ++ toString nodes ++
        " nodes (head anchor: " ++ Verdict.truth lineStart ++
        ", end anchor: " ++ Verdict.truth lineEnd ++ ")")
  | .evaluated strategy symbols verdict =>
      .ok (strategy.name ++ " run over " ++ toString symbols ++ " code points: " ++
        verdict.written)
  | .matchedAt offset => .ok ("matched at offset " ++ toString offset)
  | .invalidPattern source problem =>
      .ok ("invalid pattern " ++ Text.quote source ++ ": " ++ problem)
  | .evaluationFailed input line fault =>
      .ok ("evaluation failed at " ++ input ++ ":" ++ toString line ++ ": " ++ fault.message)
  | .unreadable input problem => .ok ("cannot read " ++ input ++ ": " ++ problem)
  | .total lines => .ok (toString lines ++ " matching line(s)")

end Event

/-- A result together with the events reported on the way to it. -/
structure Logged (Result : Type) where
  events : List Event
  value : Result

end PatternMachine
